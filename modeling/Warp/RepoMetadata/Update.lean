import Warp.Lib.HashMap
import Warp.Lib.Path

namespace Warp.RepoMetadata

structure TargetFile where
  path : Path
  isIgnored : Bool
deriving DecidableEq

structure RepositoryUpdate where
  added : HashSet TargetFile
  modified : HashSet TargetFile
  deleted : HashSet TargetFile
  moved : HashMap TargetFile TargetFile
  commitUpdated : Bool
  indexLockDetected : Bool
  remoteRefUpdated : Bool

namespace RepositoryUpdate

def empty : RepositoryUpdate where
  added := .empty
  modified := .empty
  deleted := .empty
  moved := .empty
  commitUpdated := false
  indexLockDetected := false
  remoteRefUpdated := false

def isEmpty (self : RepositoryUpdate) : Bool :=
  self.added.isEmpty && self.modified.isEmpty && self.deleted.isEmpty && self.moved.entries.isEmpty &&
    !self.commitUpdated && !self.indexLockDetected && !self.remoteRefUpdated

def mergeMove (acc : RepositoryUpdate) (move : TargetFile × TargetFile) : Except RepositoryUpdate RepositoryUpdate :=
  let (target, source) := move
  -- The first two branches leave the whole merge.
  if source ∈ acc.added then .error { acc with added := (acc.added.remove source).insert target }
  else if source ∈ acc.modified then .error { acc with modified := (acc.modified.remove source).insert target }
  else
    let originalFrom := (acc.moved.get? source).getD source
    .ok { acc with moved := (acc.moved.remove source).insert target originalFrom }

def mergeMoves : List (TargetFile × TargetFile) → RepositoryUpdate → Except RepositoryUpdate RepositoryUpdate
  | [], acc => .ok acc
  | move :: moves, acc => acc.mergeMove move >>= mergeMoves moves

def mergeAdded (acc : RepositoryUpdate) (p : TargetFile) : RepositoryUpdate :=
  { acc with
    deleted := acc.deleted.remove p, moved := acc.moved.remove p, modified := acc.modified.remove p,
    added := acc.added.insert p }

def mergeModified (acc : RepositoryUpdate) (p : TargetFile) : RepositoryUpdate :=
  if p ∈ acc.added then acc
  else
    { acc with
      deleted := acc.deleted.remove p, moved := acc.moved.remove p, modified := acc.modified.insert p }

def mergeDeleted (acc : RepositoryUpdate) (p : TargetFile) : RepositoryUpdate :=
  if p ∈ acc.added then { acc with added := acc.added.remove p }
  else
    let acc := { acc with modified := acc.modified.remove p }
    match acc.moved.get? p with
    | some source => { acc with moved := acc.moved.remove p, deleted := acc.deleted.insert source }
    | none =>
      -- A recorded move already removes its source.
      if acc.moved.entries.any fun entry => entry.2 = p then acc
      else { acc with deleted := acc.deleted.insert p }

def mergeFlags (acc incoming : RepositoryUpdate) : RepositoryUpdate :=
  { acc with
    commitUpdated := acc.commitUpdated || incoming.commitUpdated
    indexLockDetected := acc.indexLockDetected || incoming.indexLockDetected
    remoteRefUpdated := acc.remoteRefUpdated || incoming.remoteRefUpdated }

def mergeRest (acc incoming : RepositoryUpdate) : RepositoryUpdate :=
  let acc := incoming.added.elems.foldl mergeAdded acc
  let acc := incoming.modified.elems.foldl mergeModified acc
  let acc := incoming.deleted.elems.foldl mergeDeleted acc
  acc.mergeFlags incoming

def mergeRepositoryUpdates (acc incoming : RepositoryUpdate) : RepositoryUpdate :=
  match mergeMoves incoming.moved.entries acc with
  | .error acc => acc
  | .ok acc => acc.mergeRest incoming

end RepositoryUpdate

/-- The background flusher between two of its steps. -/
inductive Flusher where
  | starting
  | waiting (startVersion : UInt64)
deriving DecidableEq

structure BufferState where
  pending : RepositoryUpdate
  version : UInt64
  flushHandle : Option Flusher
  delivered : List RepositoryUpdate

inductive BufferEvent where
  | onFilesUpdated (update : RepositoryUpdate)
  /-- The flusher goes on: it notes the version, or its timer has run out. -/
  | poll
  | onUnsubscribe

namespace BufferState

def new : BufferState := ⟨.empty, 0, none, []⟩

def onFilesUpdated (self : BufferState) (update : RepositoryUpdate) : BufferState :=
  { self with
    pending := self.pending.mergeRepositoryUpdates update
    version := self.version + 1
    flushHandle := some (self.flushHandle.getD .starting) }

def flush (self : BufferState) : BufferState :=
  { self with
    pending := .empty, flushHandle := none
    delivered := self.delivered ++ if self.pending.isEmpty then [] else [self.pending] }

def poll (self : BufferState) : BufferState :=
  match self.flushHandle with
  | none => self
  | some .starting => { self with flushHandle := some (.waiting self.version) }
  | some (.waiting startVersion) =>
    if self.version = startVersion then self.flush else { self with flushHandle := some .starting }

def step (self : BufferState) : BufferEvent → BufferState
  | .onFilesUpdated update => self.onFilesUpdated update
  | .poll => self.poll
  | .onUnsubscribe => { self with flushHandle := none }

end BufferState

abbrev FileSystem (Content : Type) := Path → Option Content

namespace RepositoryUpdate

def Holds (self : RepositoryUpdate) (file : TargetFile) : Prop :=
  file ∈ self.added ∨ file ∈ self.modified ∨ file ∈ self.moved.keys

def Removes (self : RepositoryUpdate) (file : TargetFile) : Prop :=
  file ∈ self.deleted ∨ file ∈ self.moved.entries.map Prod.snd

instance (self : RepositoryUpdate) (file : TargetFile) : Decidable (self.Holds file) := inferInstanceAs (Decidable (_ ∨ _))

instance (self : RepositoryUpdate) (file : TargetFile) : Decidable (self.Removes file) :=
  inferInstanceAs (Decidable (_ ∨ _))

def apply (self : RepositoryUpdate) (paths : Set Path) : Set Path :=
  { path | (∃ file, self.Holds file ∧ file.path = path) ∨ path ∈ paths ∧ ¬ ∃ file, self.Removes file ∧ file.path = path }

end RepositoryUpdate

namespace FileSystem

variable {Content : Type}

def paths (self : FileSystem Content) : Set Path := { path | (self path).isSome }

end FileSystem

namespace RepositoryUpdate

variable {Content : Type}

/-- The update takes one set of paths to the other, and reports every path whose content is another one. -/
structure Net (update : RepositoryUpdate) (before after : FileSystem Content) : Prop where
  paths : after.paths = update.apply before.paths
  changed : ∀ path ∈ after.paths, after path ≠ before path → ∃ file, update.Holds file ∧ file.path = path

/-- The update describes a change. What it reports as deleted does not exist afterwards. -/
structure Describes (update : RepositoryUpdate) (before after : FileSystem Content) : Prop extends
    Net update before after where
  gone : ∀ file ∈ update.deleted, file.path ∉ after.paths

end RepositoryUpdate

end Warp.RepoMetadata
