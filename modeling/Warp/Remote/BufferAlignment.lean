import Warp.Remote.BufferEffects

namespace Warp.Remote.BufferSync

open List

structure Push where
  newServerVersion : ℕ
  expectedClientVersion : ℕ
  edits : List CharOffsetEdit
  deriving DecidableEq

def ServerMessage.push : ServerMessage → List Push
  | .bufferUpdatedPush newServerVersion expectedClientVersion edits => [⟨newServerVersion, expectedClientVersion, edits⟩]
  | _ => []

def pushes (down : List ServerMessage) : List Push := down.flatMap ServerMessage.push

def ClientMessage.live (serverVersion : ℕ) : ClientMessage → List (ℕ × List CharOffsetEdit)
  | .bufferEdit expectedServerVersion newClientVersion edits =>
    if expectedServerVersion = serverVersion then [(newClientVersion, edits)] else []
  | _ => []

/-- The batches that the daemon has yet to apply. -/
def outgoing (serverVersion : ℕ) (up : List ClientMessage) (batch : Option PendingEditBatch) :
    List (ℕ × List CharOffsetEdit) :=
  up.flatMap (ClientMessage.live serverVersion) ++ (batch.map fun batch => (batch.latestClientVersion, batch.edits)).toList

variable {client server : Replica} {batch : Option PendingEditBatch} {since serverVersion clientVersion : ℕ}
  {up more : List ClientMessage} {down rest : List ServerMessage} {rejected : List ℕ} {edits : List CharOffsetEdit}
  {batches : List (ℕ × List CharOffsetEdit)} {changes : List Push}

def Replica.push (self : Replica) (push : Push) : Replica := self.pushed (push.newServerVersion, push.edits)

theorem mem_pushes {push : Push} : push ∈ pushes down ↔
    .bufferUpdatedPush push.newServerVersion push.expectedClientVersion push.edits ∈ down := by
  unfold pushes
  rw [mem_flatMap]
  constructor
  · rintro ⟨message, member, isPush⟩
    cases message with
    | bufferUpdatedPush newServerVersion expectedClientVersion edits =>
      rw [List.mem_singleton.mp isPush]
      exact member
    | openBufferResponse | bufferConflictDetected | saveBufferResponse | resolveConflictResponse => cases isPush
  · exact fun member => ⟨_, member, mem_singleton_self _⟩

variable {message : ClientMessage}

theorem mem_live {sent : ℕ × List CharOffsetEdit} :
    sent ∈ message.live serverVersion ↔ message = .bufferEdit serverVersion sent.1 sent.2 := by
  cases message with
  | bufferEdit expectedServerVersion newClientVersion edits =>
    unfold ClientMessage.live
    dsimp only
    split_ifs with same
    · rw [mem_singleton, same]
      constructor
      · rintro rfl
        rfl
      · intro isEdit
        injection isEdit with _ isVersion isEdits
        rw [isVersion, isEdits]
    · refine iff_of_false (not_mem_nil) fun isEdit => same ?_
      injection isEdit
  | openBuffer requestId forceReload => simp [ClientMessage.live]
  | saveBuffer requestId => simp [ClientMessage.live]
  | resolveConflict requestId acknowledgedServerVersion currentClientVersion clientContent => simp [ClientMessage.live]

theorem serverVersion_foldl_edited : (batches.foldl Replica.edited server).clock.serverVersion = server.clock.serverVersion := by
  induction batches generalizing server with
  | nil => rfl
  | cons batch batches ih => exact ih

theorem clientVersion_foldl_push : (changes.foldl Replica.push client).clock.clientVersion = client.clock.clientVersion := by
  induction changes generalizing client with
  | nil => rfl
  | cons push changes ih => exact ih

theorem serverVersion_le_foldl_push
    (newer : (client.clock.serverVersion :: changes.map Push.newServerVersion).Pairwise (· < ·)) :
    client.clock.serverVersion ≤ (changes.foldl Replica.push client).clock.serverVersion := by
  induction changes generalizing client with
  | nil => exact Nat.le_refl _
  | cons push changes ih =>
    rw [map_cons, pairwise_cons] at newer
    have before : client.clock.serverVersion < push.newServerVersion := newer.1 _ (mem_cons_self)
    exact Nat.le_of_lt (Nat.lt_of_lt_of_le before (@ih (client.push push) newer.2))

theorem clientVersion_lt_foldl_edited (some : batches ≠ [])
    (ascending : (server.clock.clientVersion :: batches.map Prod.fst).Pairwise (· < ·)) :
    server.clock.clientVersion < (batches.foldl Replica.edited server).clock.clientVersion := by
  induction batches generalizing server with
  | nil => exact absurd rfl some
  | cons batch batches ih =>
    rw [map_cons, pairwise_cons] at ascending
    have before : server.clock.clientVersion < batch.1 := ascending.1 _ mem_cons_self
    by_cases last : batches = []
    · rw [last]
      exact before
    · exact Nat.lt_trans before (@ih (server.edited batch) last ascending.2)

def Doomed (clock : SyncClock) (down : List ServerMessage) : Prop :=
  .bufferConflictDetected ∈ down ∨ ∃ push ∈ pushes down, push.expectedClientVersion ≠ clock.clientVersion

/-- Either batches are under way to the daemon that lead to what the client has, or changes of the file to the client that
lead to what the daemon has. -/
structure Aligned (client : Replica) (batch : Option PendingEditBatch) (since : ℕ) (up : List ClientMessage)
    (down : List ServerMessage) (server : Replica) (rejected : List ℕ) : Prop where
  meets : (pushes down = [] ∧ (outgoing client.clock.serverVersion up batch).foldl Replica.edited server = client) ∨
    (outgoing client.clock.serverVersion up batch = [] ∧ (pushes down).foldl Replica.push client = server ∧
      ∀ push ∈ pushes down, push.expectedClientVersion = client.clock.clientVersion)
  ascending : (server.clock.clientVersion :: (outgoing client.clock.serverVersion up batch).map Prod.fst).Pairwise (· < ·)
  upTo : ∀ expectedServerVersion newClientVersion edits, .bufferEdit expectedServerVersion newClientVersion edits ∈ up →
    expectedServerVersion = client.clock.serverVersion ∨
      expectedServerVersion < client.clock.serverVersion ∧ newClientVersion < since
  current : ∀ pending, batch = some pending → pending.expectedServerVersion = client.clock.serverVersion ∧ pending.edits ≠ []
  rejected : ∀ version ∈ rejected, version < since

structure Synced (client : Replica) (batch : Option PendingEditBatch) (since : ℕ) (up : List ClientMessage)
    (down : List ServerMessage) (server : Replica) (rejected : List ℕ) : Prop where
  newer : (client.clock.serverVersion :: (pushes down).map Push.newServerVersion).Pairwise (· < ·)
  outcome : Doomed client.clock down ∨ Aligned client batch since up down server rejected

theorem Aligned.settled (aligned : Aligned client none since [] [] server rejected) : client = server := by
  rcases aligned.meets with ⟨-, same⟩ | ⟨-, same, -⟩
  · exact same.symm
  · exact same

theorem synced_refl (stale : ∀ expectedServerVersion newClientVersion edits,
    .bufferEdit expectedServerVersion newClientVersion edits ∈ up →
      expectedServerVersion < server.clock.serverVersion ∧ newClientVersion < since)
    (lost : ∀ version ∈ rejected, version < since) : Synced server none since up [] server rejected := by
  have nothing : outgoing server.clock.serverVersion up none = [] := by
    unfold outgoing
    rw [Option.map_none, Option.toList_none, append_nil, flatMap_eq_nil_iff]
    intro message member
    apply List.eq_nil_iff_forall_not_mem.mpr
    intro sent isLive
    rw [mem_live.mp isLive] at member
    exact Nat.lt_irrefl _ (stale _ _ _ member).1
  refine ⟨pairwise_singleton _ _, .inr ⟨.inl ⟨rfl, ?_⟩, ?_, fun _ _ _ member => .inr (stale _ _ _ member), ?_, lost⟩⟩
  · rw [nothing]
    rfl
  · rw [nothing]
    exact pairwise_singleton _ _
  · exact fun _ => (nomatch ·)

section

variable (synced : Synced client batch since up down server rejected)
include synced

theorem Synced.mono {since' : ℕ} (later : since ≤ since') :
    Synced client batch since' up down server rejected where
  newer := synced.newer
  outcome := synced.outcome.imp_right fun aligned =>
    { aligned with
      upTo := fun _ _ _ member => (aligned.upTo _ _ _ member).imp_right (And.imp_right (Nat.lt_of_lt_of_le · later))
      rejected := fun version member => Nat.lt_of_lt_of_le (aligned.rejected version member) later }

theorem Synced.append_plain (plain : ∀ message ∈ rest, message.Plain) :
    Synced client batch since up (down ++ rest) server rejected := by
  have nothing : pushes rest = [] := by
    unfold pushes
    rw [flatMap_eq_nil_iff]
    intro message member
    cases message with
    | bufferUpdatedPush => exact (plain _ member).elim
    | openBufferResponse | bufferConflictDetected | saveBufferResponse | resolveConflictResponse => rfl
  have same : pushes (down ++ rest) = pushes down := by
    unfold pushes at nothing ⊢
    rw [flatMap_append, nothing, append_nil]
  refine ⟨by rw [same]; exact synced.newer, synced.outcome.imp ?_ ?_⟩
  · unfold Doomed
    rw [same]
    exact Or.imp_left (mem_append_left _)
  · intro aligned
    exact { aligned with meets := by rw [same]; exact aligned.meets }

theorem Synced.append_stale
    (stale : ∀ expectedServerVersion newClientVersion edits, .bufferEdit expectedServerVersion newClientVersion edits ∈ more → expectedServerVersion < client.clock.serverVersion ∧ newClientVersion < since) :
    Synced client batch since (up ++ more) down server rejected := by
  have nothing : more.flatMap (ClientMessage.live client.clock.serverVersion) = [] := by
    rw [flatMap_eq_nil_iff]
    intro message member
    apply List.eq_nil_iff_forall_not_mem.mpr
    intro sent isLive
    rw [mem_live.mp isLive] at member
    exact Nat.lt_irrefl _ (stale _ _ _ member).1
  have same : outgoing client.clock.serverVersion (up ++ more) batch = outgoing client.clock.serverVersion up batch := by
    unfold outgoing
    rw [flatMap_append, nothing, append_nil]
  refine ⟨synced.newer, synced.outcome.imp_right fun aligned => ⟨?_, ?_, ?_, aligned.current, aligned.rejected⟩⟩
  · rw [same]
    exact aligned.meets
  · rw [same]
    exact aligned.ascending
  · intro expectedServerVersion newClientVersion edits member
    rcases List.mem_append.mp member with old | new
    · exact aligned.upTo _ _ _ old
    · exact .inr (stale _ _ _ new)

end

theorem Synced.flush {pending : PendingEditBatch} (synced : Synced client (some pending) since up down server rejected) :
    Synced client none since (up ++ pending.flush) down server rejected := by
  refine ⟨synced.newer, synced.outcome.imp_right fun aligned => ?_⟩
  obtain ⟨isVersion, some⟩ := aligned.current pending rfl
  have flushed : pending.flush = [.bufferEdit client.clock.serverVersion pending.latestClientVersion pending.edits] := by
    unfold PendingEditBatch.flush
    rw [if_neg some, isVersion]
  have same : outgoing client.clock.serverVersion (up ++ pending.flush) none =
      outgoing client.clock.serverVersion up (Option.some pending) := by
    unfold outgoing
    rw [flushed, flatMap_append, flatMap_singleton, ClientMessage.live, if_pos rfl]
    exact append_nil _
  refine ⟨by rw [same]; exact aligned.meets, by rw [same]; exact aligned.ascending, ?_, fun _ => (nomatch ·), aligned.rejected⟩
  intro expectedServerVersion newClientVersion edits member
  rcases List.mem_append.mp member with old | new
  · exact aligned.upTo _ _ _ old
  · rw [flushed, mem_singleton] at new
    injection new with isServer
    exact .inl isServer

def PendingEditBatch.extend (batch : Option PendingEditBatch) (serverVersion clientVersion : ℕ) (edits : List CharOffsetEdit) :
    PendingEditBatch :=
  let batch := batch.getD ⟨serverVersion, [], clientVersion⟩
  { batch with edits := batch.edits ++ edits, latestClientVersion := clientVersion }

theorem Synced.edit (synced : Synced client batch since up down server rejected) (some : edits ≠ [])
    (fresh : ∀ push ∈ pushes down, push.expectedClientVersion < clientVersion)
    (newest : ∀ version ∈ server.clock.clientVersion :: (outgoing client.clock.serverVersion up batch).map Prod.fst,
      version < clientVersion) :
    Synced (client.edited (clientVersion, edits))
      (Option.some (PendingEditBatch.extend batch client.clock.serverVersion clientVersion edits)) since up down server
      rejected := by
  refine ⟨synced.newer, ?_⟩
  have doomed : (∃ push, push ∈ pushes down) → Doomed (client.edited (clientVersion, edits)).clock down :=
    fun ⟨push, member⟩ => .inr ⟨push, member, (fresh push member).ne⟩
  rcases synced.outcome with (conflict | ⟨push, member, -⟩) | aligned
  · exact .inl (.inl conflict)
  · exact .inl (doomed ⟨push, member⟩)
  · by_cases pushed : pushes down = []
    · have reaches : (outgoing client.clock.serverVersion up batch).foldl Replica.edited server = client := by
        rcases aligned.meets with ⟨-, reaches⟩ | ⟨nothing, reaches, -⟩
        · exact reaches
        · rw [pushed] at reaches
          rw [nothing, ← reaches]
          rfl
      have isLater : ∃ sent, outgoing client.clock.serverVersion up
          (Option.some (PendingEditBatch.extend batch client.clock.serverVersion clientVersion edits)) =
            sent ++ [(clientVersion, (batch.map PendingEditBatch.edits).getD [] ++ edits)] ∧
          sent ++ (batch.map fun batch => (batch.latestClientVersion, batch.edits)).toList =
            outgoing client.clock.serverVersion up batch := by
        refine ⟨up.flatMap (ClientMessage.live client.clock.serverVersion), ?_, rfl⟩
        cases batch <;> rfl
      obtain ⟨sent, extended, before⟩ := isLater
      refine .inr ⟨.inl ⟨pushed, ?_⟩, ?_, aligned.upTo, ?_, aligned.rejected⟩
      · show (outgoing client.clock.serverVersion up _).foldl _ _ = _
        rw [extended, List.foldl_append, ← reaches, ← before, List.foldl_append]
        cases batch with
        | none => rfl
        | some pending =>
          show Replica.edited _ (_, pending.edits ++ edits) = _
          unfold Replica.edited applySequentially
          rw [List.foldl_append]
          rfl
      · show (server.clock.clientVersion :: (outgoing client.clock.serverVersion up _).map Prod.fst).Pairwise _
        rw [extended, map_append, ← cons_append, pairwise_append]
        have old : (server.clock.clientVersion :: sent.map Prod.fst).Sublist
            (server.clock.clientVersion :: (outgoing client.clock.serverVersion up batch).map Prod.fst) := by
          rw [← before, map_append]
          exact List.Sublist.cons_cons _ (sublist_append_left _ _)
        refine ⟨aligned.ascending.sublist old, pairwise_singleton _ _, fun version member last isLast => ?_⟩
        rw [List.mem_singleton.mp isLast]
        exact newest version (old.subset member)
      · intro pending isPending
        rw [← Option.some_inj.mp isPending]
        cases batch with
        | none => exact ⟨rfl, some⟩
        | some pending =>
          refine ⟨(aligned.current pending rfl).1, fun nothing => some ?_⟩
          exact (List.append_eq_nil_iff.mp nothing).2
    · exact .inl (doomed (exists_mem_of_ne_nil _ pushed))

theorem Synced.handle {expectedServerVersion newClientVersion : ℕ}
    (synced : Synced client batch since (.bufferEdit expectedServerVersion newClientVersion edits :: up) down server rejected) :
    (server.clock.serverVersion = expectedServerVersion →
      Synced client batch since up down (server.edited (newClientVersion, edits)) rejected) ∧
    (server.clock.serverVersion ≠ expectedServerVersion →
      Synced client batch since up down server (rejected ++ [newClientVersion])) := by
  rcases synced.outcome with doomed | aligned
  · exact ⟨fun _ => ⟨synced.newer, .inl doomed⟩, fun _ => ⟨synced.newer, .inl doomed⟩⟩
  have upTo := fun expectedServerVersion newClientVersion edits member =>
    aligned.upTo expectedServerVersion newClientVersion edits (mem_cons_of_mem _ member)
  have first := aligned.upTo expectedServerVersion newClientVersion edits mem_cons_self
  by_cases isLive : expectedServerVersion = client.clock.serverVersion
  · -- The first batch that is under way.
    have next : outgoing client.clock.serverVersion (.bufferEdit expectedServerVersion newClientVersion edits :: up) batch =
        (newClientVersion, edits) :: outgoing client.clock.serverVersion up batch := by
      unfold outgoing
      rw [flatMap_cons, ClientMessage.live, if_pos isLive]
      rfl
    rcases aligned.meets with ⟨nothing, reaches⟩ | ⟨nothing, -, -⟩
    · rw [next] at reaches
      have sameVersion : server.clock.serverVersion = client.clock.serverVersion := by
        rw [← reaches, serverVersion_foldl_edited]
      refine ⟨fun _ => ⟨synced.newer, .inr ⟨.inl ⟨nothing, reaches⟩, ?_, upTo, aligned.current, aligned.rejected⟩⟩,
        fun apart => absurd (sameVersion.trans isLive.symm) apart⟩
      have ascending := aligned.ascending
      rw [next, map_cons, pairwise_cons] at ascending
      exact ascending.2
    · rw [next] at nothing
      cases nothing
  · have stale := first.resolve_left isLive
    have same : outgoing client.clock.serverVersion (.bufferEdit expectedServerVersion newClientVersion edits :: up) batch =
        outgoing client.clock.serverVersion up batch := by
      unfold outgoing
      rw [flatMap_cons, ClientMessage.live, if_neg isLive]
      rfl
    have upToDate : client.clock.serverVersion ≤ server.clock.serverVersion := by
      rcases aligned.meets with ⟨-, reaches⟩ | ⟨-, reaches, -⟩
      · rw [← reaches, serverVersion_foldl_edited]
      · rw [← reaches]
        exact serverVersion_le_foldl_push synced.newer
    have apart : server.clock.serverVersion ≠ expectedServerVersion := by omega
    refine ⟨fun matched => absurd matched apart, fun _ => ⟨synced.newer, .inr ⟨?_, ?_, upTo, aligned.current, ?_⟩⟩⟩
    · rw [← same]
      exact aligned.meets
    · rw [← same]
      exact aligned.ascending
    · intro version member
      rcases List.mem_append.mp member with old | new
      · exact aligned.rejected version old
      · rw [List.mem_singleton.mp new]
        exact stale.2

theorem Synced.tail (synced : Synced client batch since (message :: up) down server rejected)
    (other : ∀ expectedServerVersion newClientVersion edits, message ≠ .bufferEdit expectedServerVersion newClientVersion edits) :
    Synced client batch since up down server rejected := by
  have same : outgoing client.clock.serverVersion (message :: up) batch = outgoing client.clock.serverVersion up batch := by
    unfold outgoing
    rw [flatMap_cons]
    cases message with
    | bufferEdit => exact absurd rfl (other _ _ _)
    | openBuffer | saveBuffer | resolveConflict => rfl
  refine ⟨synced.newer, synced.outcome.imp_right fun aligned => ⟨?_, ?_, ?_, aligned.current, aligned.rejected⟩⟩
  · rw [← same]
    exact aligned.meets
  · rw [← same]
    exact aligned.ascending
  · exact fun _ _ _ member => aligned.upTo _ _ _ (mem_cons_of_mem _ member)

theorem Synced.bump (synced : Synced client batch since up down server rejected) {newServerVersion : ℕ}
    (fresh : ∀ version ∈ client.clock.serverVersion :: (pushes down).map Push.newServerVersion, version < newServerVersion) :
    Synced client batch since up (down ++ [.bufferUpdatedPush newServerVersion server.clock.clientVersion edits])
      (server.pushed (newServerVersion, edits)) rejected := by
  let push : Push := ⟨newServerVersion, server.clock.clientVersion, edits⟩
  have later : pushes (down ++ [.bufferUpdatedPush newServerVersion server.clock.clientVersion edits]) =
      pushes down ++ [push] := by
    unfold pushes
    rw [flatMap_append]
    rfl
  refine ⟨?_, ?_⟩
  · rw [later, map_append, ← cons_append, pairwise_append]
    refine ⟨synced.newer, pairwise_singleton _ _, fun version member last isLast => ?_⟩
    rw [List.mem_singleton.mp isLast]
    exact fresh version member
  rcases synced.outcome with (conflict | ⟨other, member, apart⟩) | aligned
  · exact .inl (.inl (mem_append_left _ conflict))
  · exact .inl (.inr ⟨other, by rw [later]; exact mem_append_left _ member, apart⟩)
  · by_cases nothing : outgoing client.clock.serverVersion up batch = []
    · have reaches : (pushes down).foldl Replica.push client = server ∧
          ∀ push ∈ pushes down, push.expectedClientVersion = client.clock.clientVersion := by
        rcases aligned.meets with ⟨none, reaches⟩ | ⟨-, reaches⟩
        · rw [nothing] at reaches
          rw [none]
          exact ⟨reaches.symm, fun _ => (nomatch ·)⟩
        · exact reaches
      have sameVersion : server.clock.clientVersion = client.clock.clientVersion := by
        rw [← reaches.1, clientVersion_foldl_push]
      refine .inr ⟨.inr ⟨nothing, ?_, ?_⟩, ?_, aligned.upTo, aligned.current, aligned.rejected⟩
      · rw [later, List.foldl_append, reaches.1]
        rfl
      · intro other member
        rw [later] at member
        rcases List.mem_append.mp member with old | new
        · exact reaches.2 other old
        · rw [List.mem_singleton.mp new]
          exact sameVersion
      · rw [nothing]
        exact pairwise_singleton _ _
    · refine .inl (.inr ⟨push, by rw [later]; exact mem_append_right _ (mem_singleton_self _), ?_⟩)
      rcases aligned.meets with ⟨-, reaches⟩ | ⟨none, -, -⟩
      · rw [← reaches]
        exact (clientVersion_lt_foldl_edited nothing aligned.ascending).ne
      · exact absurd none nothing

theorem Synced.skip {message : ServerMessage} (synced : Synced client batch since up (message :: down) server rejected)
    (nothing : message.push = []) (settles : message ≠ .bufferConflictDetected) :
    Synced client batch since up down server rejected := by
  have same : pushes (message :: down) = pushes down := by
    unfold pushes
    rw [flatMap_cons, nothing]
    rfl
  refine ⟨same ▸ synced.newer, synced.outcome.imp ?_ fun aligned => { aligned with meets := by rw [← same]; exact aligned.meets }⟩
  rintro (conflict | ⟨push, member, apart⟩)
  · exact .inl ((List.mem_cons.mp conflict).resolve_left settles.symm)
  · exact .inr ⟨push, same ▸ member, apart⟩

theorem Synced.receive {push : Push}
    (synced : Synced client batch since up
      (.bufferUpdatedPush push.newServerVersion push.expectedClientVersion push.edits :: down) server rejected)
    (matched : client.clock.clientVersion = push.expectedClientVersion) :
    Synced (client.push push) batch since up down server rejected := by
  have first : pushes (.bufferUpdatedPush push.newServerVersion push.expectedClientVersion push.edits :: down) =
      push :: pushes down := rfl
  have newer := synced.newer
  rw [first, map_cons, pairwise_cons] at newer
  refine ⟨newer.2, ?_⟩
  rcases synced.outcome with (conflict | ⟨other, member, apart⟩) | aligned
  · exact .inl (.inl ((List.mem_cons.mp conflict).resolve_left (by simp)))
  · rw [first] at member
    rcases List.mem_cons.mp member with same | member
    · rw [same] at apart
      exact absurd matched.symm apart
    · exact .inl (.inr ⟨other, member, apart⟩)
  · rcases aligned.meets with ⟨none, -⟩ | ⟨nothing, reaches, expected⟩
    · rw [first] at none
      cases none
    · rw [first] at reaches expected
      have before : client.clock.serverVersion < push.newServerVersion := newer.1 _ mem_cons_self
      have stale : ∀ expectedServerVersion newClientVersion edits,
          .bufferEdit expectedServerVersion newClientVersion edits ∈ up →
            expectedServerVersion < push.newServerVersion ∧ newClientVersion < since := by
        intro expectedServerVersion newClientVersion edits member
        rcases aligned.upTo _ _ _ member with isLive | ⟨older, made⟩
        · have live : (newClientVersion, edits) ∈ outgoing client.clock.serverVersion up batch := by
            refine mem_append_left _ (List.mem_flatMap.mpr ⟨_, member, ?_⟩)
            rw [mem_live, isLive]
          rw [nothing] at live
          cases live
        · exact ⟨Nat.lt_trans older before, made⟩
      have noBatch : batch = none := by
        cases batch with
        | none => rfl
        | some pending =>
          have some := (List.append_eq_nil_iff.mp nothing).2
          cases some
      have nothing' : outgoing push.newServerVersion up batch = [] := by
        unfold outgoing
        rw [noBatch, Option.map_none, Option.toList_none, append_nil, flatMap_eq_nil_iff]
        intro message member
        apply List.eq_nil_iff_forall_not_mem.mpr
        intro sent isLive
        rw [mem_live.mp isLive] at member
        exact Nat.lt_irrefl _ (stale _ _ _ member).1
      refine .inr ⟨.inr ⟨nothing', reaches, fun other member => expected other (mem_cons_of_mem _ member)⟩, ?_,
        fun _ _ _ member => .inr (stale _ _ _ member), ?_, aligned.rejected⟩
      · show (_ :: (outgoing push.newServerVersion up batch).map Prod.fst).Pairwise _
        rw [nothing']
        exact pairwise_singleton _ _
      · intro pending isPending
        rw [noBatch] at isPending
        cases isPending

end Warp.Remote.BufferSync
