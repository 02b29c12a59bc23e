import Warp.RepoMetadata.Coalesce

namespace Warp.RepoMetadata

variable {Content : Type} {base now next : FileSystem Content} {acc acc' incoming : RepositoryUpdate} {file : TargetFile}

namespace RepositoryUpdate

structure Within (P : TargetFile → Prop) (update : RepositoryUpdate) : Prop where
  added : ∀ file ∈ update.added, P file
  modified : ∀ file ∈ update.modified, P file
  deleted : ∀ file ∈ update.deleted, P file
  moved : ∀ target source, update.moved.get? target = some source → P target ∧ P source

namespace Within

variable {P : TargetFile → Prop} {p : TargetFile}

theorem empty : Within P .empty :=
  ⟨fun _ member => absurd member (HashSet.notMem_empty _), fun _ member => absurd member (HashSet.notMem_empty _),
    fun _ member => absurd member (HashSet.notMem_empty _), fun _ _ known => by cases known⟩

section

variable (within : Within P acc)
include within

theorem holds (held : acc.Holds file) : P file := by
  rcases holds_iff.mp held with added | modified | moved
  · exact within.added file added
  · exact within.modified file modified
  · obtain ⟨source, known⟩ := Option.isSome_iff_exists.mp moved
    exact (within.moved file source known).1

theorem removes (removed : acc.Removes file) : P file := by
  rcases removes_iff.mp removed with deleted | ⟨target, known⟩
  · exact within.deleted file deleted
  · exact (within.moved target file known).2

theorem remove_moved (p : TargetFile) :
    ∀ target source, (acc.moved.remove p).get? target = some source → P target ∧ P source := by
  intro target source known
  rw [HashMap.get?_remove] at known
  by_cases same : target = p
  · rw [if_pos same] at known
    cases known
  · rw [if_neg same] at known
    exact within.moved target source known

theorem mergeMove {target source : TargetFile} (left : P target) (right : P source) :
    Within P (merged (acc.mergeMove (target, source))) := by
  unfold RepositoryUpdate.mergeMove
  dsimp only
  split_ifs with added modified
  · refine { within with added := fun file member => ?_ }
    rcases HashSet.mem_insert.mp member with rfl | member
    · exact left
    · exact within.added file (HashSet.mem_remove.mp member).1
  · refine { within with modified := fun file member => ?_ }
    rcases HashSet.mem_insert.mp member with rfl | member
    · exact left
    · exact within.modified file (HashSet.mem_remove.mp member).1
  · refine { within with moved := fun key value known => ?_ }
    dsimp only [merged] at known
    rw [HashMap.get?_insert] at known
    by_cases same : key = target
    · rw [if_pos same] at known
      rw [same, ← Option.some.inj known]
      cases earlier : acc.moved.get? source with
      | none => exact ⟨left, right⟩
      | some original => exact ⟨left, (within.moved source original earlier).2⟩
    · rw [if_neg same] at known
      exact within.remove_moved source key value known

theorem mergeAdded (has : P p) : Within P (acc.mergeAdded p) where
  added file member := (HashSet.mem_insert.mp member).elim (fun same => same ▸ has) (within.added file)
  modified file member := within.modified file (HashSet.mem_remove.mp member).1
  deleted file member := within.deleted file (HashSet.mem_remove.mp member).1
  moved := within.remove_moved p

theorem mergeModified (has : P p) : Within P (acc.mergeModified p) := by
  unfold RepositoryUpdate.mergeModified
  split_ifs with added
  · exact within
  · exact ⟨within.added, fun file member => (HashSet.mem_insert.mp member).elim (fun same => same ▸ has) (within.modified file),
      fun file member => within.deleted file (HashSet.mem_remove.mp member).1, within.remove_moved p⟩

theorem mergeDeleted (has : P p) : Within P (acc.mergeDeleted p) := by
  have modified : ∀ file ∈ acc.modified.remove p, P file :=
    fun file member => within.modified file (HashSet.mem_remove.mp member).1
  unfold RepositoryUpdate.mergeDeleted
  split_ifs with added
  · exact { within with added := fun file member => within.added file (HashSet.mem_remove.mp member).1 }
  · dsimp only
    cases known : acc.moved.get? p with
    | some source =>
      refine ⟨within.added, modified, fun file member => ?_, within.remove_moved p⟩
      rcases HashSet.mem_insert.mp member with rfl | member
      · exact (within.moved p file known).2
      · exact within.deleted file member
    | none =>
      dsimp only
      split_ifs with source
      · exact ⟨within.added, modified, within.deleted, within.moved⟩
      · exact ⟨within.added, modified, fun file member => (HashSet.mem_insert.mp member).elim (fun same => same ▸ has)
          (within.deleted file), within.moved⟩

end

theorem foldl {f : RepositoryUpdate → TargetFile → RepositoryUpdate} {files : List TargetFile} (within : Within P acc)
    (one : ∀ acc p, Within P acc → P p → Within P (f acc p)) (all : ∀ p ∈ files, P p) : Within P (files.foldl f acc) := by
  induction files generalizing acc with
  | nil => exact within
  | cons p files ih =>
    obtain ⟨first, rest⟩ := List.forall_mem_cons.mp all
    exact ih (one acc p within first) rest

theorem mergeMoves {moves : List (TargetFile × TargetFile)} (within : Within P acc)
    (all : ∀ move ∈ moves, P move.1 ∧ P move.2) : Within P (merged (mergeMoves moves acc)) := by
  induction moves generalizing acc with
  | nil => exact within
  | cons move moves ih =>
    obtain ⟨⟨left, right⟩, rest⟩ := List.forall_mem_cons.mp all
    have first := within.mergeMove left right
    have goes : RepositoryUpdate.mergeMoves (move :: moves) acc =
      acc.mergeMove move >>= RepositoryUpdate.mergeMoves moves := rfl
    rw [goes]
    cases result : acc.mergeMove (move.1, move.2) with
    | ok next =>
      rw [result] at first
      exact ih first rest
    | error next =>
      rw [result] at first
      exact first

theorem merge (within : Within P acc) (incomingWithin : Within P incoming) :
    Within P (acc.mergeRepositoryUpdates incoming) := by
  have moves := within.mergeMoves fun move (member : move ∈ incoming.moved.entries) =>
    incomingWithin.moved move.1 move.2 (HashMap.get?_eq_some_iff.mpr member)
  unfold mergeRepositoryUpdates
  cases result : RepositoryUpdate.mergeMoves incoming.moved.entries acc with
  | error next =>
    rw [result] at moves
    exact moves
  | ok next =>
    rw [result] at moves
    have added := foldl moves (fun _ _ => mergeAdded) incomingWithin.added
    have modified := foldl added (fun _ _ => mergeModified) incomingWithin.modified
    obtain ⟨added, modified, deleted, moved⟩ := foldl modified (fun _ _ => mergeDeleted) incomingWithin.deleted
    exact ⟨added, modified, deleted, moved⟩

end Within

structure Flagged (acc incoming acc' : RepositoryUpdate) : Prop where
  commitUpdated : acc'.commitUpdated = (acc.commitUpdated || incoming.commitUpdated)
  indexLockDetected : acc'.indexLockDetected = (acc.indexLockDetected || incoming.indexLockDetected)
  remoteRefUpdated : acc'.remoteRefUpdated = (acc.remoteRefUpdated || incoming.remoteRefUpdated)

variable {t : RepositoryUpdate} {ignored : Path → Bool}

theorem flagged_congr (flagged : Flagged t incoming acc') (commitUpdated : t.commitUpdated = acc.commitUpdated)
    (indexLockDetected : t.indexLockDetected = acc.indexLockDetected)
    (remoteRefUpdated : t.remoteRefUpdated = acc.remoteRefUpdated) : Flagged acc incoming acc' := by
  obtain ⟨commit, lock, remote⟩ := flagged
  exact ⟨commitUpdated ▸ commit, indexLockDetected ▸ lock, remoteRefUpdated ▸ remote⟩

def SameFlags (acc acc' : RepositoryUpdate) : Prop :=
  acc'.commitUpdated = acc.commitUpdated ∧ acc'.indexLockDetected = acc.indexLockDetected ∧
    acc'.remoteRefUpdated = acc.remoteRefUpdated

theorem SameFlags.trans (first : SameFlags acc t) (second : SameFlags t acc') : SameFlags acc acc' :=
  ⟨second.1.trans first.1, second.2.1.trans first.2.1, second.2.2.trans first.2.2⟩

theorem sameFlags_mergeMove (acc : RepositoryUpdate) (move : TargetFile × TargetFile) :
    SameFlags acc (merged (acc.mergeMove move)) := by
  unfold mergeMove
  dsimp only
  split_ifs <;> exact ⟨rfl, rfl, rfl⟩

theorem sameFlags_mergeModified (acc : RepositoryUpdate) (p : TargetFile) : SameFlags acc (acc.mergeModified p) := by
  unfold mergeModified
  split_ifs <;> exact ⟨rfl, rfl, rfl⟩

theorem sameFlags_mergeDeleted (acc : RepositoryUpdate) (p : TargetFile) : SameFlags acc (acc.mergeDeleted p) := by
  unfold mergeDeleted
  dsimp only
  cases acc.moved.get? p with
  | some source => split_ifs <;> exact ⟨rfl, rfl, rfl⟩
  | none =>
    dsimp only
    split_ifs <;> exact ⟨rfl, rfl, rfl⟩

theorem sameFlags_foldl {f : RepositoryUpdate → TargetFile → RepositoryUpdate} (one : ∀ acc p, SameFlags acc (f acc p))
    (files : List TargetFile) (acc : RepositoryUpdate) : SameFlags acc (files.foldl f acc) := by
  induction files generalizing acc with
  | nil => exact ⟨rfl, rfl, rfl⟩
  | cons p files ih => exact (one acc p).trans (ih (f acc p))

theorem sameFlags_mergeMoves (moves : List (TargetFile × TargetFile)) (acc : RepositoryUpdate) :
    SameFlags acc (merged (mergeMoves moves acc)) := by
  induction moves generalizing acc with
  | nil => exact ⟨rfl, rfl, rfl⟩
  | cons move moves ih =>
    have first := sameFlags_mergeMove acc move
    have goes : mergeMoves (move :: moves) acc = acc.mergeMove move >>= mergeMoves moves := rfl
    rw [goes]
    cases result : acc.mergeMove move with
    | ok next =>
      rw [result] at first
      exact first.trans (ih next)
    | error next =>
      rw [result] at first
      exact first

theorem mergeRest_flagged (acc incoming : RepositoryUpdate) : Flagged acc incoming (acc.mergeRest incoming) := by
  have added := sameFlags_foldl (fun _ _ => ⟨rfl, rfl, rfl⟩) incoming.added.elems (f := mergeAdded) acc
  have modified := sameFlags_foldl sameFlags_mergeModified incoming.modified.elems (incoming.added.elems.foldl mergeAdded acc)
  have deleted := sameFlags_foldl sameFlags_mergeDeleted incoming.deleted.elems
    (incoming.modified.elems.foldl mergeModified (incoming.added.elems.foldl mergeAdded acc))
  obtain ⟨commit, lock, remote⟩ := (added.trans modified).trans deleted
  exact flagged_congr ⟨rfl, rfl, rfl⟩ commit lock remote

theorem merge_flagged (kept : acc.Kept base incoming) : Flagged acc incoming (acc.mergeRepositoryUpdates incoming) := by
  have same := sameFlags_mergeMoves incoming.moved.entries acc
  unfold mergeRepositoryUpdates
  cases result : mergeMoves incoming.moved.entries acc with
  | ok next =>
    rw [result] at same
    exact flagged_congr (mergeRest_flagged next incoming) same.1 same.2.1 same.2.2
  | error next =>
    have nothing := (mergeMoves_effect kept.1).2 next result
    rw [result] at same
    simp only [nothingElse, Bool.and_eq_true, Bool.or_eq_true, Bool.not_eq_true'] at nothing
    obtain ⟨⟨⟨-, commit⟩, lock⟩, remote⟩ := nothing
    have kept : ∀ {before flag : Bool}, flag = false ∨ before = true → before = (before || flag) := by
      intro before flag either
      rcases either with rfl | rfl <;> simp
    exact ⟨same.1.trans (kept commit), same.2.1.trans (kept lock), same.2.2.trans (kept remote)⟩

/-- The files of one update agree on which paths are ignored. -/
def Ignoring (ignored : Path → Bool) : RepositoryUpdate → Prop := Within fun file => file.isIgnored = ignored file.path

theorem Ignoring.holds_path (ignoring : Ignoring ignored acc) (path : Path) :
    (∃ file, acc.Holds file ∧ file.path = path) ↔ acc.Holds ⟨path, ignored path⟩ := by
  constructor
  · rintro ⟨file, held, rfl⟩
    rw [← ignoring.holds held]
    exact held
  · exact fun held => ⟨_, held, rfl⟩

theorem Ignoring.removes_path (ignoring : Ignoring ignored acc) (path : Path) :
    (∃ file, acc.Removes file ∧ file.path = path) ↔ acc.Removes ⟨path, ignored path⟩ := by
  constructor
  · rintro ⟨file, removed, rfl⟩
    rw [← ignoring.removes removed]
    exact removed
  · exact fun removed => ⟨_, removed, rfl⟩

theorem Net.merge (net : acc.Net base now) (describes : incoming.Describes now next) (ignoring : Ignoring ignored acc)
    (incomingIgnoring : Ignoring ignored incoming) (kept : acc.Kept base incoming) :
    (acc.mergeRepositoryUpdates incoming).Net base next := by
  have effect := merge_effect kept
  have both : Ignoring ignored (acc.mergeRepositoryUpdates incoming) := ignoring.merge incomingIgnoring
  have before : ∀ path, path ∈ now.paths ↔ acc.Holds ⟨path, ignored path⟩ ∨
      path ∈ base.paths ∧ ¬ acc.Removes ⟨path, ignored path⟩ := by
    intro path
    rw [net.paths, apply, Set.mem_ofPred_eq, ignoring.holds_path, ignoring.removes_path]
  have after : ∀ path, path ∈ next.paths ↔ incoming.Holds ⟨path, ignored path⟩ ∨
      path ∈ now.paths ∧ ¬ incoming.Removes ⟨path, ignored path⟩ := by
    intro path
    rw [describes.paths, apply, Set.mem_ofPred_eq, incomingIgnoring.holds_path, incomingIgnoring.removes_path]
  have undeleted : ∀ path, incoming.Holds ⟨path, ignored path⟩ → ⟨path, ignored path⟩ ∉ incoming.deleted :=
    fun path held deleted => describes.gone _ deleted ((after path).mpr (.inl held))
  have holds : ∀ path, (acc.mergeRepositoryUpdates incoming).Holds ⟨path, ignored path⟩ ↔
      incoming.Holds ⟨path, ignored path⟩ ∨ acc.Holds ⟨path, ignored path⟩ ∧ ¬ incoming.Removes ⟨path, ignored path⟩ := by
    intro path
    rw [effect.holds]
    have := undeleted path
    tauto
  constructor
  · ext path
    have lossless := effect.lossless ⟨path, ignored path⟩
    have absent : (base path).isNone = true ↔ path ∉ base.paths := by
      simp [FileSystem.paths]
    unfold Lossless at lossless
    rw [apply, Set.mem_ofPred_eq, both.holds_path, both.removes_path]
    rw [absent] at lossless
    rw [after, before]
    by_cases held : (acc.mergeRepositoryUpdates incoming).Holds ⟨path, ignored path⟩
    · rcases (holds path).mp held with appears | ⟨stays, unmoved⟩
      · simp [held, appears]
      · simp [held, stays, unmoved]
    · have lossless := lossless held
      rw [holds, not_or] at held
      grind
  · intro path exists' changed
    rw [both.holds_path]
    by_contra absent
    rw [holds, not_or] at absent
    have unchanged : next path = now path := by
      by_contra differs
      exact absent.1 ((incomingIgnoring.holds_path path).mp (describes.changed path exists' differs))
    have existed : path ∈ now.paths := by
      unfold FileSystem.paths at exists' ⊢
      rw [Set.mem_ofPred_eq] at exists' ⊢
      rwa [← unchanged]
    have held := (ignoring.holds_path path).mp (net.changed path existed (unchanged ▸ changed))
    have unmoved := (((after path).mp exists').resolve_left absent.1).2
    exact absent.2 ⟨held, unmoved⟩

theorem Net.empty (base : FileSystem Content) : RepositoryUpdate.empty.Net base base := by
  have nothing : ∀ file, ¬ RepositoryUpdate.empty.Removes file := by
    intro file
    simp [removes_iff, RepositoryUpdate.empty]
  have holds : ∀ file, ¬ RepositoryUpdate.empty.Holds file := by
    intro file
    simp [holds_iff, RepositoryUpdate.empty]
  constructor
  · ext path
    simp [apply, nothing, holds]
  · exact fun path _ changed => absurd rfl changed

/-- The update stands for updates that were taken one after the other. -/
structure Coalesces (update : RepositoryUpdate) (updates : List RepositoryUpdate) (before after : FileSystem Content) :
    Prop where
  paths : update.apply before.paths = updates.foldl (fun paths update => update.apply paths) before.paths
  exist : update.apply before.paths = after.paths
  changed : ∀ path ∈ after.paths, after path ≠ before path → ∃ file, update.Holds file ∧ file.path = path
  commitUpdated : update.commitUpdated = updates.any RepositoryUpdate.commitUpdated
  indexLockDetected : update.indexLockDetected = updates.any RepositoryUpdate.indexLockDetected
  remoteRefUpdated : update.remoteRefUpdated = updates.any RepositoryUpdate.remoteRefUpdated

namespace Coalesces

variable {updates : List RepositoryUpdate}

theorem empty (base : FileSystem Content) : RepositoryUpdate.empty.Coalesces [] base base where
  paths := (Net.empty base).paths.symm
  exist := (Net.empty base).paths.symm
  changed := (Net.empty base).changed
  commitUpdated := rfl
  indexLockDetected := rfl
  remoteRefUpdated := rfl

theorem merge {ignored : Path → Bool} (coalesces : acc.Coalesces updates base now)
    (describes : incoming.Describes now next) (ignoring : Ignoring ignored acc)
    (incomingIgnoring : Ignoring ignored incoming) (kept : acc.Kept base incoming) :
    (acc.mergeRepositoryUpdates incoming).Coalesces (updates ++ [incoming]) base next := by
  have net : acc.Net base now := ⟨coalesces.exist.symm, coalesces.changed⟩
  obtain ⟨exist, changed⟩ := net.merge describes ignoring incomingIgnoring kept
  obtain ⟨commit, lock, remote⟩ := merge_flagged kept
  constructor
  case paths =>
    rw [List.foldl_append, List.foldl_cons, List.foldl_nil, ← coalesces.paths, coalesces.exist, ← describes.paths, ← exist]
  case exist => exact exist.symm
  case changed => exact changed
  case commitUpdated => simp [commit, coalesces.commitUpdated]
  case indexLockDetected => simp [lock, coalesces.indexLockDetected]
  case remoteRefUpdated => simp [remote, coalesces.remoteRefUpdated]

end Coalesces

end RepositoryUpdate

inductive WatchEvent (Content : Type) where
  | onFilesUpdated (update : RepositoryUpdate) (after : FileSystem Content)
  | poll
  | onUnsubscribe

structure Flushed (Content : Type) where
  update : RepositoryUpdate
  updates : List RepositoryUpdate
  before : FileSystem Content
  after : FileSystem Content

/-- The buffer with the file system at its last flush and now, and the updates since then. -/
structure Watched (Content : Type) where
  buffer : BufferState
  base : FileSystem Content
  now : FileSystem Content
  window : List RepositoryUpdate
  flushed : List (Flushed Content)

namespace BufferState

def flushes (self : BufferState) : Bool := self.flushHandle = some (.waiting self.version)

theorem poll_of_flushes {self : BufferState} (flushes : self.flushes) : self.poll = self.flush := by
  have waiting : self.flushHandle = some (.waiting self.version) := of_decide_eq_true flushes
  unfold poll
  rw [waiting]
  exact if_pos rfl

theorem poll_of_not_flushes {self : BufferState} (flushes : ¬ self.flushes) :
    self.poll.pending = self.pending ∧ self.poll.delivered = self.delivered := by
  unfold poll
  cases handle : self.flushHandle with
  | none => exact ⟨rfl, rfl⟩
  | some flusher =>
    cases flusher with
    | starting => exact ⟨rfl, rfl⟩
    | waiting startVersion =>
      have other : self.version ≠ startVersion := by
        rintro rfl
        exact flushes (decide_eq_true handle)
      dsimp only
      rw [if_neg other]
      exact ⟨rfl, rfl⟩

end BufferState

namespace Watched

def new (base : FileSystem Content) : Watched Content := ⟨.new, base, base, [], []⟩

def step (self : Watched Content) : WatchEvent Content → Watched Content
  | .onFilesUpdated update after =>
    { self with buffer := self.buffer.step (.onFilesUpdated update), now := after, window := self.window ++ [update] }
  | .poll =>
    if self.buffer.flushes then
      { self with
        buffer := self.buffer.step .poll, base := self.now, window := []
        flushed := self.flushed ++ [⟨self.buffer.pending, self.window, self.base, self.now⟩] }
    else { self with buffer := self.buffer.step .poll }
  | .onUnsubscribe => { self with buffer := self.buffer.step .onUnsubscribe }

def Described (self : Watched Content) : WatchEvent Content → Prop
  | .onFilesUpdated update after => update.Describes self.now after
  | _ => True

/-- No path changes its ignored bit, and no update is merged in a branch that loses something. -/
def Kept (ignored : Path → Bool) (self : Watched Content) : WatchEvent Content → Prop
  | .onFilesUpdated update _ => update.Ignoring ignored ∧ self.buffer.pending.Kept self.base update
  | _ => True

structure Coalesced (watched : Watched Content) : Prop where
  pending : watched.buffer.pending.Coalesces watched.window watched.base watched.now
  flushed : ∀ flush ∈ watched.flushed, flush.update.Coalesces flush.updates flush.before flush.after
  delivered : watched.buffer.delivered = (watched.flushed.map Flushed.update).filter fun update => !update.isEmpty

theorem Coalesced.step {ignored : Path → Bool} {watched : Watched Content} {event : WatchEvent Content}
    (coalesced : Coalesced watched) (ignoring : watched.buffer.pending.Ignoring ignored)
    (described : watched.Described event) (kept : watched.Kept ignored event) :
    Coalesced (watched.step event) ∧ (watched.step event).buffer.pending.Ignoring ignored := by
  cases event with
  | onFilesUpdated update after =>
    obtain ⟨incoming, kept⟩ := kept
    refine ⟨⟨?_, coalesced.flushed, coalesced.delivered⟩, ignoring.merge incoming⟩
    exact coalesced.pending.merge described ignoring incoming kept
  | poll =>
    unfold Watched.step
    by_cases flushes : watched.buffer.flushes
    · have flush : watched.buffer.step .poll = watched.buffer.flush := BufferState.poll_of_flushes flushes
      dsimp only
      rw [if_pos flushes, flush]
      refine ⟨⟨.empty _, ?_, ?_⟩, .empty⟩
      · intro other member
        rcases List.mem_append.mp member with member | member
        · exact coalesced.flushed other member
        · exact List.mem_singleton.mp member ▸ coalesced.pending
      · dsimp only [BufferState.flush]
        rw [coalesced.delivered, List.map_append, List.filter_append]
        cases none : watched.buffer.pending.isEmpty <;> simp [none]
    · obtain ⟨pending, delivered⟩ := BufferState.poll_of_not_flushes flushes
      have pending : (watched.buffer.step .poll).pending = watched.buffer.pending := pending
      have delivered : (watched.buffer.step .poll).delivered = watched.buffer.delivered := delivered
      dsimp only
      rw [if_neg flushes]
      refine ⟨⟨?_, coalesced.flushed, delivered.trans coalesced.delivered⟩, ?_⟩
      · exact pending ▸ coalesced.pending
      · exact pending ▸ ignoring
  | onUnsubscribe => exact ⟨⟨coalesced.pending, coalesced.flushed, coalesced.delivered⟩, ignoring⟩

def named (name : Char) : TargetFile := ⟨[[name]], false⟩

def holding (names : List Char) : FileSystem Unit := fun path => if path ∈ names.map (fun name => [[name]]) then some () else none

theorem mem_paths_holding {names : List Char} {path : Path} :
    path ∈ (holding names).paths ↔ ∃ name ∈ names, (named name).path = path := by
  unfold FileSystem.paths holding
  rw [Set.mem_ofPred_eq]
  split_ifs with member
  · simpa [named] using member
  · simpa [named] using member

theorem describes_holding {appear leave names after : List Char} {update : RepositoryUpdate}
    (holds : ∀ other, update.Holds other ↔ other ∈ appear.map named)
    (removes : ∀ other, update.Removes other ↔ other ∈ leave.map named) (kept : ∀ other, other ∉ update.deleted)
    (same : ∀ name, name ∈ after ↔ name ∈ appear ∨ name ∈ names ∧ name ∉ leave) :
    update.Describes (holding names) (holding after) := by
  have isFile : ∀ {name other : Char}, (named name).path = (named other).path → name = other := by
    intro name other same
    simpa [named] using same
  refine ⟨⟨?_, ?_⟩, fun other deleted => absurd deleted (kept other)⟩
  · ext path
    simp only [RepositoryUpdate.apply, mem_paths_holding, holds, removes, List.mem_map, Set.mem_ofPred_eq, same]
    constructor
    · rintro ⟨name, appears | ⟨existed, stays⟩, rfl⟩
      · exact .inl ⟨named name, ⟨name, appears, rfl⟩, rfl⟩
      · refine .inr ⟨⟨name, existed, rfl⟩, ?_⟩
        rintro ⟨other, ⟨left, leaves, rfl⟩, here⟩
        exact stays (isFile here ▸ leaves)
    · rintro (⟨other, ⟨name, appears, rfl⟩, rfl⟩ | ⟨⟨name, existed, rfl⟩, stays⟩)
      · exact ⟨name, .inl appears, rfl⟩
      · exact ⟨name, .inr ⟨existed, fun leaves => stays ⟨named name, ⟨name, leaves, rfl⟩, rfl⟩⟩, rfl⟩
  · intro path exist changed
    obtain ⟨name, member, rfl⟩ := mem_paths_holding.mp exist
    rcases (same name).mp member with appears | ⟨existed, -⟩
    · exact ⟨named name, (holds _).mpr (List.mem_map_of_mem appears), rfl⟩
    · refine absurd ?_ changed
      unfold holding
      have after : (named name).path ∈ after.map fun name => [[name]] := List.mem_map_of_mem member
      have before : (named name).path ∈ names.map fun name => [[name]] := List.mem_map_of_mem existed
      rw [if_pos after, if_pos before]

def creation : RepositoryUpdate := { RepositoryUpdate.empty with added := HashSet.empty.insert (named 'a') }

def renameWhileCreating : RepositoryUpdate :=
  { RepositoryUpdate.empty with
    added := HashSet.empty.insert (named 'c'), moved := HashMap.empty.insert (named 'b') (named 'a'), commitUpdated := true }

theorem creation_describes : creation.Describes (holding []) (holding ['a']) := by
  refine @describes_holding ['a'] [] [] ['a'] _ ?_ ?_ ?_ ?_
  · intro other
    simp [RepositoryUpdate.holds_iff, creation, RepositoryUpdate.empty]
  · intro other
    simp [RepositoryUpdate.removes_iff, creation, RepositoryUpdate.empty]
  · exact HashSet.notMem_empty
  · simp

theorem renameWhileCreating_describes : renameWhileCreating.Describes (holding ['a']) (holding ['b', 'c']) := by
  refine @describes_holding ['b', 'c'] ['a'] ['a'] ['b', 'c'] _ ?_ ?_ ?_ ?_
  · intro other
    simp [RepositoryUpdate.holds_iff, renameWhileCreating, RepositoryUpdate.empty, HashMap.get?_insert, or_comm]
  · intro other
    simp [RepositoryUpdate.removes_iff, renameWhileCreating, RepositoryUpdate.empty, HashMap.get?_insert, eq_comm]
  · exact HashSet.notMem_empty
  · simp

theorem creation_ignoring : creation.Ignoring fun _ => false where
  added other member := by
    have same : other = named 'a' := by simpa [creation] using member
    rw [same]
    rfl
  modified other member := absurd member (HashSet.notMem_empty _)
  deleted other member := absurd member (HashSet.notMem_empty _)
  moved target source known := by cases known

theorem renameWhileCreating_ignoring : renameWhileCreating.Ignoring fun _ => false where
  added other member := by
    have same : other = named 'c' := by simpa [renameWhileCreating] using member
    rw [same]
    rfl
  modified other member := absurd member (HashSet.notMem_empty _)
  deleted other member := absurd member (HashSet.notMem_empty _)
  moved target source known := by
    have same : target = named 'b' ∧ named 'a' = source := by
      simpa [renameWhileCreating, HashMap.get?_insert] using known
    rw [← same.2, same.1]
    exact ⟨rfl, rfl⟩

end Watched

end Warp.RepoMetadata
