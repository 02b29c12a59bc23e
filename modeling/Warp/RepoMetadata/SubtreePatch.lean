import Warp.RepoMetadata.FileTreeRun
import Warp.RepoMetadata.Patches

namespace Warp.RepoMetadata

open List

variable {path parent target dir k q : Path} {t t' : FileTreeEntry} {state : FileTreeEntryState} {states states' : List FileTreeEntryState}
  {entry : Entry}

def FileTreeEntryState.node : FileTreeEntryState → RepoNodeMetadata
  | file path extension ignored => .file path extension ignored
  | directory path ignored loaded => .directory path ignored loaded

mutual

theorem flattenEntryMetadata_eq : ∀ entry : Entry, flattenEntryMetadata entry = entry.states.map FileTreeEntryState.node
  | .file .. => rfl
  | .directory path children ignored loaded => by
    rw [flattenEntryMetadata, Entry.states, map_cons, flattenAll_eq children]
    rfl

theorem flattenAll_eq : ∀ entries : List Entry, flattenAll entries = (Entry.allStates entries).map FileTreeEntryState.node
  | [] => rfl
  | entry :: entries => by
    rw [flattenAll, Entry.allStates, map_append, flattenEntryMetadata_eq entry, flattenAll_eq entries]

end

namespace FileTreeEntry

theorem applyNode_frame (other : k ≠ state.path) : (t.applyNode state.node).view k = t.view k := by
  have insert : ∀ {parent : Path}, t.findParentDirectory state.path = some parent →
      (t.insertChildState parent state).view k = t.view k := by
    intro parent isParent
    rw [view_insertChildState (FileTreeMapStore.parentDirectory_eq_some.mp isParent).2, if_neg other]
  cases state with
  | directory path ignored loaded =>
    show (t.applyNode (.directory path ignored loaded)).view k = t.view k
    unfold applyNode
    dsimp only
    cases isParent : t.findParentDirectory path with
    | none => rfl
    | some parent => exact insert isParent
  | file path extension ignored =>
    show (t.applyNode (.file path extension ignored)).view k = t.view k
    have other : k ≠ path := other
    unfold applyNode
    dsimp only
    cases found : t.get path with
    | some existing =>
      dsimp only
      rw [view_insertState, if_neg other]
    | none =>
      dsimp only
      cases isParent : t.findParentDirectory path with
      | none => rfl
      | some parent => exact insert isParent

theorem applyNode_keeps (node : RepoNodeMetadata) (k : Path) {flags : Bool × Bool × Bool} (found : t.view k = some flags) :
    ∃ flags', (t.applyNode node).view k = some flags' ∧ (flags.1 = true → flags'.1 = true) := by
  cases node with
  | directory path ignored loaded =>
    unfold applyNode
    dsimp only
    cases isParent : t.findParentDirectory path with
    | none => exact ⟨flags, found, id⟩
    | some parent =>
      dsimp only
      rw [view_insertChildState (FileTreeMapStore.parentDirectory_eq_some.mp isParent).2]
      split_ifs
      · exact ⟨_, rfl, fun _ => rfl⟩
      · exact ⟨flags, found, id⟩
  | file path extension ignored =>
    unfold applyNode
    dsimp only
    cases stored : t.get path with
    | some existing =>
      dsimp only
      rw [view_insertState]
      split_ifs with same
      · rw [same, view, stored, Option.map_some, Option.some_inj] at found
        refine ⟨_, rfl, fun isDirectory => ?_⟩
        rw [← found] at isDirectory
        rw [← isDirectory]
        cases existing <;> rfl
      · exact ⟨flags, found, id⟩
    | none =>
      dsimp only
      cases isParent : t.findParentDirectory path with
      | none => exact ⟨flags, found, id⟩
      | some parent =>
        dsimp only
        rw [view_insertChildState (FileTreeMapStore.parentDirectory_eq_some.mp isParent).2]
        split_ifs with same
        · have same : k = path := same
          rw [same, view, stored] at found
          cases found
        · exact ⟨flags, found, id⟩

theorem applyNode_places (directory : (t.stateMap.getAsDirectory parent).isSome) (named : state.path.parent = some parent)
    (fits : ∀ flags, t.view state.path = some flags → flags.1 = true → state.isDirectory = true) :
    (t.applyNode state.node).view state.path = some state.flags := by
  have place : t.findParentDirectory state.path = some parent := FileTreeMapStore.parentDirectory_eq_some.mpr ⟨named, directory⟩
  have insert : (t.insertChildState parent state).view state.path = some state.flags := by
    rw [view_insertChildState directory, if_pos rfl]
  cases state with
  | directory path ignored loaded =>
    show (t.applyNode (.directory path ignored loaded)).view path = _
    unfold applyNode
    dsimp only
    rw [show t.findParentDirectory path = some parent from place]
    exact insert
  | file path extension ignored =>
    show (t.applyNode (.file path extension ignored)).view path = _
    unfold applyNode
    dsimp only
    cases found : t.get path with
    | none =>
      dsimp only
      rw [show t.findParentDirectory path = some parent from place]
      exact insert
    | some existing =>
      dsimp only
      rw [view_insertState, if_pos rfl]
      cases existing with
      | file => rfl
      | directory path' ignored' loaded' =>
        exact absurd (fits (true, ignored', loaded') (congrArg (Option.map FileTreeEntryState.flags) found) rfl) Bool.false_ne_true

structure Placed (t : FileTreeEntry) (states : List FileTreeEntryState) (t' : FileTreeEntry) : Prop where
  rooted : t'.Rooted
  set : ∀ state ∈ states, t'.view state.path = some state.flags
  frame : ∀ k, (∀ state ∈ states, state.path ≠ k) → t'.view k = t.view k

theorem Placed.trans {next : FileTreeEntry} (first : Placed t states t') (second : Placed t' states' next)
    (apart : ∀ state ∈ states, ∀ state' ∈ states', state'.path ≠ state.path) : Placed t (states ++ states') next where
  rooted := second.rooted
  set state member := by
    rcases List.mem_append.mp member with member | member
    · rw [second.frame state.path fun state' member' => apart state member state' member']
      exact first.set state member
    · exact second.set state member
  frame k other := by
    rw [second.frame k fun state member => other state (mem_append_right _ member)]
    exact first.frame k fun state member => other state (mem_append_left _ member)

/-- No directory of the tree is to be a file. -/
def KindsFit (t : FileTreeEntry) (states : List FileTreeEntryState) : Prop :=
  ∀ state ∈ states, ∀ flags, t.view state.path = some flags → flags.1 = true → state.isDirectory = true

theorem KindsFit.placed (fits : KindsFit t (states ++ states')) (placed : Placed t states t')
    (apart : ∀ state ∈ states, ∀ state' ∈ states', state'.path ≠ state.path) : KindsFit t' states' := by
  intro state' member' flags found
  rw [placed.frame state'.path fun state member => (apart state member state' member').symm] at found
  exact fits state' (mem_append_right _ member') flags found

theorem placed_singleton (rooted : t.Rooted) (directory : (t.stateMap.getAsDirectory parent).isSome)
    (named : state.path.parent = some parent) (fits : KindsFit t [state]) : Placed t [state] (t.applyNode state.node) where
  rooted := (applyNode_spec rooted _).1
  set other member := by
    rw [List.mem_singleton.mp member]
    exact applyNode_places directory named (fits state (mem_singleton_self _))
  frame k other := applyNode_frame (other state (mem_singleton_self _)).symm

theorem Placed.directory (placed : Placed t states t') (directory : (t.stateMap.getAsDirectory q).isSome)
    (above : ∀ state ∈ states, state.path ≠ q) : (t'.stateMap.getAsDirectory q).isSome := by
  rw [directory_iff, placed.frame q above, ← directory_iff]
  exact directory

mutual

theorem flatten_placed : ∀ (entry : Entry) {t : FileTreeEntry} {parent : Path}, t.Rooted →
    (t.stateMap.getAsDirectory parent).isSome → entry.path.parent = some parent → entry.Named → KindsFit t entry.states →
    Placed t entry.states ((flattenEntryMetadata entry).foldl applyNode t)
  | .file path extension ignored, t, parent, rooted, directory, isParent, _, fits =>
    placed_singleton rooted directory isParent fits
  | .directory path children ignored loaded, t, parent, rooted, directory, isParent, named, fits => by
    have below : ∀ state ∈ [FileTreeEntryState.directory path ignored loaded], ∀ state' ∈ Entry.allStates children,
        state'.path ≠ state.path := by
      intro state member state' member' same
      obtain ⟨child, ⟨-, isParent, -⟩, below⟩ := Entry.AllNamed.below named state' member'
      obtain ⟨name, split⟩ := Path.parent_eq_some_iff.mp isParent
      rw [List.mem_singleton.mp member] at same
      exact Path.not_concat_prefix (split ▸ same ▸ below)
    have first : Placed t [.directory path ignored loaded] (t.applyNode (.directory path ignored loaded)) :=
      placed_singleton rooted directory isParent fun state member =>
        fits state (List.mem_cons.mpr (.inl (List.mem_singleton.mp member)))
    have isDirectory : ((t.applyNode (.directory path ignored loaded)).stateMap.getAsDirectory path).isSome := by
      rw [directory_iff]
      exact ⟨_, first.set _ (mem_singleton_self _), rfl⟩
    exact first.trans (flattenAll_placed children first.rooted isDirectory named (KindsFit.placed fits first below)) below

theorem flattenAll_placed : ∀ (entries : List Entry) {t : FileTreeEntry} {parent : Path}, t.Rooted →
    (t.stateMap.getAsDirectory parent).isSome → Entry.AllNamed parent entries → KindsFit t (Entry.allStates entries) →
    Placed t (Entry.allStates entries) ((flattenAll entries).foldl applyNode t)
  | [], t, parent, rooted, _, _, _ => ⟨rooted, by simp [Entry.allStates], fun _ _ => rfl⟩
  | entry :: entries, t, parent, rooted, directory, named, fits => by
    have apart : ∀ state ∈ entry.states, ∀ state' ∈ Entry.allStates entries, state'.path ≠ state.path := by
      intro state member state' member' same
      have below := named.1.2.below state member
      obtain ⟨other, ⟨among, isParent, -⟩, below'⟩ := Entry.AllNamed.below named.2.2 state' member'
      obtain ⟨name, split⟩ := Path.parent_eq_some_iff.mp named.1.1
      obtain ⟨name', split'⟩ := Path.parent_eq_some_iff.mp isParent
      have samePath := Path.prefix_unique (same ▸ below') below (by rw [split, split']; simp)
      exact named.2.1 (samePath ▸ List.mem_map_of_mem among)
    have above : ∀ state ∈ entry.states, state.path ≠ parent := by
      rintro state member rfl
      obtain ⟨name, split⟩ := Path.parent_eq_some_iff.mp named.1.1
      exact Path.not_concat_prefix (split ▸ named.1.2.below state member)
    have first := flatten_placed entry rooted directory named.1.1 named.1.2
      fun state member => fits state (mem_append_left _ member)
    rw [flattenAll, List.foldl_append]
    exact first.trans (flattenAll_placed entries first.rooted (first.directory directory above) named.2.2
      (KindsFit.placed fits first apart)) apart

end

end FileTreeEntry

end Warp.RepoMetadata
