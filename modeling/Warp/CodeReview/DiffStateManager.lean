import Warp.CodeReview.DiffStateTracker

namespace Warp.CodeReview.RemoteDiffStateManager

open Remote (RequestId)

variable {δ μ φ : Type} {m m' m'' : RemoteDiffStateManager δ μ} {key other : DiffModelKey} {connId : ConnectionId}
  {requestId : RequestId} {p : PendingDiffStateResponse}

def waiting (m : RemoteDiffStateManager δ μ) (key : DiffModelKey) : List PendingDiffStateResponse :=
  m.pendingResponses.values key

def connections (m : RemoteDiffStateManager δ μ) (key : DiffModelKey) : HashSet ConnectionId :=
  (m.keyToConnections.get? key).getD .empty

/-- There are models, responses that wait and connections only for keys with a subscriber. -/
structure Coherent (m : RemoteDiffStateManager δ μ) : Prop where
  inhabited : ∀ key, (m.keyToConnections.get? key).isSome → ∃ connId, connId ∈ m.connections key
  modelled : ∀ key, (m.states.get? key).isSome ↔ (m.keyToConnections.get? key).isSome
  pending : ∀ key, (m.pendingResponses.get? key).isSome → (m.keyToConnections.get? key).isSome
  subscribed : ∀ key, ∀ p ∈ m.waiting key, p.connId ∈ m.connections key

theorem new_coherent : (new : RemoteDiffStateManager δ μ).Coherent where
  inhabited _ found := by cases found
  modelled _ := .rfl
  pending _ found := by cases found
  subscribed _ _ member := by cases member

theorem isSome_of_waiting (member : p ∈ m.waiting key) : (m.pendingResponses.get? key).isSome := by
  unfold waiting HashMap.values at member
  cases found : m.pendingResponses.get? key with
  | none =>
    rw [found] at member
    cases member
  | some pending => rfl

theorem Coherent.model_of_waiting (coherent : m.Coherent) (waits : m.waiting key ≠ []) : ∃ model, m.getModel key = some model := by
  obtain ⟨p, member⟩ := List.exists_mem_of_ne_nil _ waits
  have tracked := coherent.pending key (isSome_of_waiting member)
  exact Option.isSome_iff_exists.mp ((coherent.modelled key).mpr tracked)

section Narrowed

/-- The manager forgets responses that wait, at most those that are dropped, and may forget models. -/
structure Narrowed (dropped : DiffModelKey → PendingDiffStateResponse → Prop) (m m' : RemoteDiffStateManager δ μ) : Prop where
  waiting : ∀ key, (m'.waiting key).Sublist (m.waiting key)
  kept : ∀ key, ∀ p ∈ m.waiting key, ¬ dropped key p → p ∈ m'.waiting key
  models : ∀ key model, m'.getModel key = some model → m.getModel key = some model
  inProgress : m'.inProgress = m.inProgress

variable {dropped : DiffModelKey → PendingDiffStateResponse → Prop}

theorem Narrowed.refl (m : RemoteDiffStateManager δ μ) : Narrowed dropped m m :=
  ⟨fun _ => .refl _, fun _ _ member _ => member, fun _ _ found => found, rfl⟩

theorem Narrowed.trans (first : Narrowed dropped m m') (second : Narrowed dropped m' m'') : Narrowed dropped m m'' where
  waiting key := (second.waiting key).trans (first.waiting key)
  kept key p member notDropped := second.kept key p (first.kept key p member notDropped) notDropped
  models key model found := first.models key model (second.models key model found)
  inProgress := second.inProgress.trans first.inProgress

theorem Narrowed.mono {dropped' : DiffModelKey → PendingDiffStateResponse → Prop} (le : ∀ key p, dropped key p → dropped' key p)
    (narrowed : Narrowed dropped m m') : Narrowed dropped' m m' :=
  { narrowed with kept := fun key p member notDropped => narrowed.kept key p member (notDropped ∘ le key p) }

theorem waiting_dropPending (m : RemoteDiffStateManager δ μ) (key other : DiffModelKey) (connId : ConnectionId) :
    (m.dropPending key connId).waiting other =
      if other = key then (m.waiting key).filter (·.connId ≠ connId) else m.waiting other := by
  unfold dropPending waiting
  cases found : m.pendingResponses.get? key with
  | none =>
    have nothing : m.pendingResponses.values key = [] := by rw [HashMap.values, found]; rfl
    by_cases same : other = key
    · rw [if_pos same, same, nothing]
      rfl
    · rw [if_neg same]
  | some pending =>
    have here : m.pendingResponses.values key = pending := by rw [HashMap.values, found]; rfl
    simp only [HashMap.values_insert]
    rw [here]

theorem dropPending_narrowed (m : RemoteDiffStateManager δ μ) (key : DiffModelKey) (connId : ConnectionId) :
    Narrowed (fun other p => other = key ∧ p.connId = connId) m (m.dropPending key connId) where
  waiting other := by
    rw [waiting_dropPending]
    split_ifs with same
    · rw [same]
      exact List.filter_sublist
    · exact .refl _
  kept other p member notDropped := by
    rw [waiting_dropPending]
    split_ifs with same
    · subst same
      exact List.mem_filter.mpr ⟨member, decide_eq_true fun isConn => notDropped ⟨rfl, isConn⟩⟩
    · exact member
  models other model found := by
    unfold dropPending getModel at *
    split at found <;> exact found
  inProgress := by
    unfold dropPending
    split <;> rfl

theorem keyToConnections_dropPending : (m.dropPending key connId).keyToConnections = m.keyToConnections := by
  unfold dropPending
  split <;> rfl

theorem states_dropPending : (m.dropPending key connId).states = m.states := by
  unfold dropPending
  split <;> rfl

theorem connections_dropPending : (m.dropPending key connId).connections other = m.connections other := by
  unfold connections
  rw [keyToConnections_dropPending]

theorem pendingResponses_dropPending (found : ((m.dropPending key connId).pendingResponses.get? other).isSome) :
    (m.pendingResponses.get? other).isSome := by
  unfold dropPending at found
  split at found
  · rename_i pending isPending
    rw [HashMap.get?_insert] at found
    split_ifs at found with same
    · rw [same, isPending]
      rfl
    · exact found
  · exact found

theorem dropPending_coherent (coherent : m.Coherent) : (m.dropPending key connId).Coherent where
  inhabited other found := by
    rw [keyToConnections_dropPending] at found
    rw [connections_dropPending]
    exact coherent.inhabited other found
  modelled other := by
    rw [keyToConnections_dropPending, states_dropPending]
    exact coherent.modelled other
  pending other found := by
    rw [keyToConnections_dropPending]
    exact coherent.pending other (pendingResponses_dropPending found)
  subscribed other p member := by
    rw [connections_dropPending]
    exact coherent.subscribed other p (((dropPending_narrowed m key connId).waiting other).subset member)

theorem waiting_removeModel (m : RemoteDiffStateManager δ μ) (key other : DiffModelKey) :
    (m.removeModel key).waiting other = if other = key then [] else m.waiting other := HashMap.values_remove _ _ _

theorem removeModel_coherent (coherent : m.Coherent) : (m.removeModel key).Coherent where
  inhabited other found := by
    unfold removeModel connections at *
    rw [HashMap.get?_remove] at *
    split_ifs at * with same
    · cases found
    · exact coherent.inhabited other found
  modelled other := by
    unfold removeModel
    rw [HashMap.get?_remove, HashMap.get?_remove]
    split_ifs with same
    · exact .rfl
    · exact coherent.modelled other
  pending other found := by
    unfold removeModel at *
    rw [HashMap.get?_remove] at *
    split_ifs at * with same
    · cases found
    · exact coherent.pending other found
  subscribed other p member := by
    rw [waiting_removeModel] at member
    unfold removeModel connections
    rw [HashMap.get?_remove]
    split_ifs at * with same
    · cases member
    · exact coherent.subscribed other p member

theorem removeModel_narrowed (gone : ∀ p ∈ m.waiting key, dropped key p) : Narrowed dropped m (m.removeModel key) where
  waiting other := by
    rw [waiting_removeModel]
    split_ifs
    · exact List.nil_sublist _
    · exact .refl _
  kept other p member notDropped := by
    rw [waiting_removeModel]
    split_ifs with same
    · subst same
      exact absurd (gone p member) notDropped
    · exact member
  models other model found := by
    unfold removeModel getModel at *
    rw [HashMap.get?_remove] at found
    split_ifs at found
    exact found
  inProgress := rfl

theorem connections_coherent (coherent : m.Coherent) {conns : HashSet ConnectionId}
    (tracked : (m.keyToConnections.get? key).isSome) (inhabited : ∃ connId, connId ∈ conns)
    (subscribed : ∀ p ∈ m.waiting key, p.connId ∈ conns) :
    Coherent { m with keyToConnections := m.keyToConnections.insert key conns } where
  inhabited other found := by
    unfold connections
    dsimp only at *
    rw [HashMap.get?_insert] at *
    split_ifs at * with same
    · exact inhabited
    · exact coherent.inhabited other found
  modelled other := by
    dsimp only
    rw [HashMap.get?_insert]
    split_ifs with same
    · subst same
      exact iff_of_true ((coherent.modelled other).mpr tracked) rfl
    · exact coherent.modelled other
  pending other found := by
    dsimp only
    rw [HashMap.get?_insert]
    split_ifs with same
    · rfl
    · exact coherent.pending other found
  subscribed other p member := by
    unfold connections
    dsimp only
    rw [HashMap.get?_insert]
    split_ifs with same
    · subst same
      exact subscribed p member
    · exact coherent.subscribed other p member

theorem waiting_dropPending_conn {p : PendingDiffStateResponse} (member : p ∈ (m.dropPending key connId).waiting key) :
    p.connId ≠ connId := by
  rw [waiting_dropPending, if_pos rfl] at member
  simpa using (List.mem_filter.mp member).2

theorem unsubscribeConnection_spec (coherent : m.Coherent) :
    (m.unsubscribeConnection key connId).Coherent ∧
      Narrowed (fun other p => other = key ∧ p.connId = connId) m (m.unsubscribeConnection key connId) := by
  have narrowed := dropPending_narrowed m key connId
  have dropped : (m.dropPending key connId).Coherent := dropPending_coherent coherent
  unfold unsubscribeConnection
  dsimp only
  generalize isDrop : m.dropPending key connId = d at narrowed dropped
  cases tracked : d.keyToConnections.get? key with
  | none => exact ⟨dropped, narrowed⟩
  | some conns =>
    have here : d.connections key = conns := by rw [connections, tracked]; rfl
    have others : ∀ p ∈ d.waiting key, p.connId ∈ conns.remove connId := by
      intro p member
      have isMember := dropped.subscribed key p member
      rw [here] at isMember
      subst isDrop
      exact HashSet.mem_remove.mpr ⟨isMember, waiting_dropPending_conn member⟩
    dsimp only
    by_cases last : (conns.remove connId).isEmpty = true
    · rw [if_pos last]
      have nobody := HashSet.isEmpty_iff.mp last
      exact ⟨removeModel_coherent dropped,
        narrowed.trans (removeModel_narrowed fun p member => absurd (others p member) (nobody p.connId))⟩
    · rw [if_neg last]
      have somebody : ∃ connId', connId' ∈ conns.remove connId := by
        by_contra nobody
        exact last (HashSet.isEmpty_iff.mpr fun value member => nobody ⟨value, member⟩)
      have isTracked : (d.keyToConnections.get? key).isSome := by rw [tracked]; rfl
      exact ⟨connections_coherent dropped isTracked somebody others,
        narrowed.trans ⟨fun _ => .refl _, fun _ _ member _ => member, fun _ _ found => found, rfl⟩⟩

theorem removeConnection_spec (coherent : m.Coherent) :
    (m.removeConnection connId).Coherent ∧ Narrowed (fun _ p => p.connId = connId) m (m.removeConnection connId) := by
  unfold removeConnection
  dsimp only
  generalize (m.keyToConnections.entries.filter _).map Prod.fst = keys
  induction keys generalizing m with
  | nil => exact ⟨coherent, .refl m⟩
  | cons key keys ih =>
    obtain ⟨coherent, narrowed⟩ : (m.unsubscribeConnection key connId).Coherent ∧ _ := unsubscribeConnection_spec coherent
    obtain ⟨laterCoherent, laterNarrowed⟩ := ih coherent
    exact ⟨laterCoherent, (narrowed.mono fun _ _ => And.right).trans laterNarrowed⟩

theorem abortPendingResponse_spec (coherent : m.Coherent) :
    (m.abortPendingResponse requestId).Coherent ∧
      Narrowed (fun _ p => p.requestId = requestId) m (m.abortPendingResponse requestId) := by
  unfold abortPendingResponse
  cases found : m.pendingResponses.entries.find? fun entry => entry.2.any (·.requestId = requestId) with
  | none => exact ⟨coherent, .refl m⟩
  | some entry =>
    obtain ⟨key, pending⟩ := entry
    have isPending : m.pendingResponses.get? key = some pending := HashMap.get?_eq_some_iff.mpr (List.mem_of_find?_eq_some found)
    have here : m.waiting key = pending := by rw [waiting, HashMap.values, isPending]; rfl
    have narrowed : Narrowed (fun _ p => p.requestId = requestId) m
        { m with pendingResponses := m.pendingResponses.insert key (pending.eraseP (·.requestId = requestId)) } := by
      refine ⟨fun other => ?_, fun other p member notDropped => ?_, fun _ _ isModel => isModel, rfl⟩
      · unfold waiting
        rw [HashMap.values_insert]
        split_ifs with same
        · subst same
          rw [show m.pendingResponses.values other = pending from here]
          exact List.eraseP_sublist
        · exact .refl _
      · unfold waiting
        rw [HashMap.values_insert]
        split_ifs with same
        · subst same
          rw [here] at member
          exact (List.mem_eraseP_of_neg (by simpa using notDropped)).mpr member
        · exact member
    refine ⟨⟨coherent.inhabited, coherent.modelled, fun other isSome => ?_, fun other p member => ?_⟩, narrowed⟩
    · dsimp only at isSome
      rw [HashMap.get?_insert] at isSome
      split_ifs at isSome with same
      · subst same
        exact coherent.pending other (by rw [isPending]; rfl)
      · exact coherent.pending other isSome
    · exact coherent.subscribed other p ((narrowed.waiting other).subset member)

end Narrowed

theorem waiting_drain (m : RemoteDiffStateManager δ μ) (key other : DiffModelKey) :
    (m.drainPendingResponses key).2.waiting other = if other = key then [] else m.waiting other := HashMap.values_remove _ _ _

theorem drain_coherent (coherent : m.Coherent) : (m.drainPendingResponses key).2.Coherent where
  inhabited := coherent.inhabited
  modelled := coherent.modelled
  pending other found := by
    unfold drainPendingResponses at found
    dsimp only at found
    rw [HashMap.get?_remove] at found
    split_ifs at found
    · cases found
    · exact coherent.pending other found
  subscribed other p member := by
    rw [waiting_drain] at member
    split_ifs at member
    · cases member
    · exact coherent.subscribed other p member

theorem connections_subscribe (m : RemoteDiffStateManager δ μ) (key other : DiffModelKey) (connId : ConnectionId) :
    (m.subscribeConnection key connId).connections other =
      if other = key then (m.connections key).insert connId else m.connections other := by
  unfold subscribeConnection connections
  dsimp only
  rw [HashMap.get?_insert]
  split_ifs <;> rfl

/-- Only the model of a new key is still missing. -/
structure Subscribed (key : DiffModelKey) (connId : ConnectionId) (m m' : RemoteDiffStateManager δ μ) : Prop where
  conns : ∀ other, (m'.keyToConnections.get? other).isSome ↔ other = key ∨ (m.keyToConnections.get? other).isSome
  connections : ∀ other, m'.connections other = if other = key then (m.connections key).insert connId else m.connections other
  states : m'.states = m.states
  pending : m'.pendingResponses = m.pendingResponses
  inProgress : m'.inProgress = m.inProgress

theorem subscribeConnection_subscribed (m : RemoteDiffStateManager δ μ) (key : DiffModelKey) (connId : ConnectionId) :
    Subscribed key connId m (m.subscribeConnection key connId) where
  conns other := by
    unfold subscribeConnection
    dsimp only
    rw [HashMap.get?_insert]
    split_ifs with same <;> simp [same]
  connections other := connections_subscribe m key other connId
  states := rfl
  pending := rfl
  inProgress := rfl

theorem Coherent.subscribe (coherent : m.Coherent) {states : HashMap DiffModelKey (LocalDiffStateModel δ μ)}
    {pendingResponses : HashMap DiffModelKey (List PendingDiffStateResponse)} {inProgress : HashMap RequestId ℕ}
    (here : (states.get? key).isSome) (others : ∀ other ≠ key, (states.get? other).isSome ↔ (m.states.get? other).isSome)
    (pending : ∀ other ≠ key, pendingResponses.get? other = m.pendingResponses.get? other)
    (waits : ∀ p ∈ pendingResponses.values key, p ∈ m.waiting key ∨ p.connId = connId) :
    Coherent { m.subscribeConnection key connId with
      states := states, pendingResponses := pendingResponses, inProgress := inProgress } := by
  have subscribed := subscribeConnection_subscribed m key connId
  refine ⟨fun other found => ?_, fun other => ?_, fun other found => ?_, fun other p member => ?_⟩
  · show ∃ connId', connId' ∈ (m.subscribeConnection key connId).connections other
    rw [subscribed.connections]
    split_ifs with same
    · exact ⟨connId, HashSet.mem_insert.mpr (.inl rfl)⟩
    · exact coherent.inhabited other (((subscribed.conns other).mp found).resolve_left same)
  · show (states.get? other).isSome ↔ ((m.subscribeConnection key connId).keyToConnections.get? other).isSome
    rw [subscribed.conns]
    by_cases same : other = key
    · subst same
      exact iff_of_true here (.inl rfl)
    · rw [others other same, coherent.modelled other]
      exact (or_iff_right same).symm
  · show ((m.subscribeConnection key connId).keyToConnections.get? other).isSome
    rw [subscribed.conns]
    by_cases same : other = key
    · exact .inl same
    · refine .inr (coherent.pending other ?_)
      rw [← pending other same]
      exact found
  · show p.connId ∈ (m.subscribeConnection key connId).connections other
    rw [subscribed.connections]
    split_ifs with same
    · subst same
      rcases waits p member with old | isConn
      · exact HashSet.mem_insert.mpr (.inr (coherent.subscribed other p old))
      · exact HashSet.mem_insert.mpr (.inl isConn)
    · apply coherent.subscribed other p
      unfold waiting HashMap.values
      rw [← pending other same]
      exact member

end Warp.CodeReview.RemoteDiffStateManager
