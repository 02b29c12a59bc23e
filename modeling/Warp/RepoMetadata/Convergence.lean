import Warp.RepoMetadata.SubtreePatch

namespace Warp.RepoMetadata

open List

variable {path parent target dir k q : Path} {t server client : FileTreeEntry} {subtree : Entry}

namespace FileTreeEntry

theorem Rooted.directory_above (rooted : t.Rooted) (directory : (t.stateMap.getAsDirectory path).isSome)
    (above : q <+: path) (inside : t.rootPath <+: q) : (t.stateMap.getAsDirectory q).isSome := by
  induction path using List.reverseRecOn with
  | nil => rwa [List.prefix_nil.mp above]
  | append_singleton init name ih =>
    rcases List.prefix_concat_iff.mp above with same | above
    · rwa [same]
    · obtain ⟨state, found, -⟩ := FileTreeMapStore.getAsDirectory_isSome.mp directory
      have other : init ++ [name] ≠ t.rootPath := fun same => Path.not_concat_prefix (same ▸ inside.trans above)
      obtain ⟨q', isParent, directory', -⟩ := FileTreeMapStore.Rooted.parents rooted _ (by rw [found]; rfl) other
      obtain rfl : init = q' := Option.some.inj ((Path.parent_eq_some_iff.mpr ⟨name, rfl⟩).symm.trans isParent)
      exact ih directory' above

/-- The way to the parent of the path leads through directories, or through what is not there yet. -/
def Open (t : FileTreeEntry) (dir : Path) : Prop :=
  ∃ parent, dir.parent = some parent ∧ t.rootPath <+: parent ∧ (t.get t.rootPath).isSome ∧
    ∀ q, q <+: parent → ∀ flags, t.view q = some flags → flags.1 = true

theorem ensureDirectories_open (names : List Str) {t : FileTreeEntry} {current : Path} (rooted : t.Rooted)
    (directory : (t.stateMap.getAsDirectory current).isSome)
    (isOpen : ∀ q, q <+: current ++ names → ∀ flags, t.view q = some flags → flags.1 = true) :
    ((t.ensureDirectories current (descent current names)).stateMap.getAsDirectory (current ++ names)).isSome := by
  induction names generalizing t current with
  | nil => rwa [append_nil]
  | cons name names ih =>
    have onward : current ++ name :: names = current ++ [name] ++ names := by simp
    by_cases stored : (t.get (current ++ [name])).isSome
    · have named : Path.parent (current ++ [name]) = some current := Path.parent_eq_some_iff.mpr ⟨name, rfl⟩
      obtain ⟨state, found⟩ := Option.isSome_iff_exists.mp stored
      have isDirectory := isOpen (current ++ [name]) (onward ▸ prefix_append _ _) state.flags
        (congrArg (Option.map FileTreeEntryState.flags) found)
      rw [descent, ensureDirectories, findOrInsertDirectory_of_stored rooted directory named stored, onward, found]
      cases state with
      | file => cases isDirectory
      | directory path ignored loaded =>
        have same : path = current ++ [name] := FileTreeMapStore.Rooted.keyed rooted _ _ found
        dsimp only
        rw [same]
        exact ih rooted (FileTreeMapStore.getAsDirectory_isSome.mpr ⟨_, found, rfl⟩) fun q above => isOpen q (onward ▸ above)
    · refine (ensureDirectories_reaches (name :: names) rooted directory).2 ?_
      rintro name' rest split
      rw [← (List.cons.inj split).1]
      exact Option.not_isSome_iff_eq_none.mp stored

theorem open_iff (rooted : t.Rooted) (isParent : dir.parent = some parent) :
    ((t.ensureParentDirectoriesExist parent).stateMap.getAsDirectory parent).isSome ↔ t.Open dir := by
  obtain ⟨rooted', sameRoot⟩ := ensureParentDirectoriesExist_spec rooted parent
  constructor
  · intro directory
    have inside : t.rootPath <+: parent := by
      obtain ⟨state, found, -⟩ := FileTreeMapStore.getAsDirectory_isSome.mp directory
      have := FileTreeMapStore.Rooted.below rooted' (by rw [found]; rfl)
      rwa [sameRoot] at this
    have above : ∀ {q}, q <+: parent → t.rootPath <+: q →
        ((t.ensureParentDirectoriesExist parent).stateMap.getAsDirectory q).isSome :=
      fun above inside => Rooted.directory_above rooted' directory above (sameRoot ▸ inside)
    refine ⟨parent, isParent, inside, ?_, fun q isAbove flags found => ?_⟩
    · by_contra none
      have absent := Option.not_isSome_iff_eq_none.mp none
      have same : t.ensureParentDirectoriesExist parent = t := by
        unfold ensureParentDirectoriesExist
        rw [absent]
        split_ifs <;> rfl
      obtain ⟨state, found, -⟩ := FileTreeMapStore.getAsDirectory_isSome.mp (same ▸ above inside prefix_rfl)
      rw [show t.stateMap.get t.rootPath = Option.none from absent] at found
      cases found
    · have stored : (t.get q).isSome := by rw [← isSome_view, found]; rfl
      have kept : (t.ensureParentDirectoriesExist parent).get q = t.get q := by
        refine (ensureParentDirectoriesExist_get rooted parent q).resolve_right ?_
        rintro ⟨absent, -⟩
        rw [absent] at stored
        cases stored
      obtain ⟨flags', found', isDirectory⟩ :=
        directory_iff.mp (above isAbove (FileTreeMapStore.Rooted.below rooted stored))
      unfold view at found found'
      rw [kept, found] at found'
      exact Option.some.inj found' ▸ isDirectory
  · rintro ⟨parent', isParent', inside, stored, isOpen⟩
    obtain rfl : parent = parent' := Option.some.inj (isParent.symm.trans isParent')
    obtain ⟨state, found⟩ := Option.isSome_iff_exists.mp stored
    have isDirectory := isOpen t.rootPath inside state.flags (congrArg (Option.map FileTreeEntryState.flags) found)
    unfold ensureParentDirectoriesExist
    rw [if_pos (Path.startsWith_iff.mpr inside), found]
    cases state with
    | file => cases isDirectory
    | directory path ignored loaded =>
      have same : path = t.rootPath := FileTreeMapStore.Rooted.keyed rooted _ _ found
      obtain ⟨names, rfl⟩ := inside
      dsimp only
      rw [same, ancestors_takeWhile]
      exact ensureDirectories_open names rooted (FileTreeMapStore.getAsDirectory_isSome.mpr ⟨_, found, rfl⟩) isOpen

theorem setLoaded_spec (rooted : t.Rooted) (directory : (t.stateMap.getAsDirectory path).isSome) :
    (t.setLoaded path).Rooted ∧ (t.setLoaded path).rootPath = t.rootPath ∧
      ∀ k, (t.setLoaded path).view k = if k = path then (t.view path).map fun flags => (flags.1, flags.2.1, true) else t.view k := by
  obtain ⟨state, found, isDirectory⟩ := FileTreeMapStore.getAsDirectory_isSome.mp directory
  have found : t.get path = some state := found
  unfold setLoaded
  rw [found]
  cases state with
  | file => cases isDirectory
  | directory directory' ignored loaded =>
    have same := FileTreeMapStore.Rooted.keyed rooted _ _ found
    refine ⟨FileTreeMapStore.Rooted.replace rooted found same rfl, rfl, fun k => ?_⟩
    dsimp only
    rw [view_insertState]
    split_ifs
    · unfold view
      rw [found]
      rfl
    · rfl

/-- What the subtree is for the tree: its own place, and no other than what is there may change. -/
structure SubtreeFits (t : FileTreeEntry) (dir : Path) (subtree : Entry) : Prop where
  loaded : t.isParentLoaded dir = true
  again : ∀ k, (t.get k).isSome → dir <+: k → k ∈ subtree.states.map FileTreeEntryState.path
  kinds : KindsFit t subtree.states

section AddDirectorySubtree

variable (rooted : t.Rooted)

include rooted

theorem addDirectorySubtree_closed (isClosed : ¬ t.Open dir) (subtree : Entry) : t.addDirectorySubtree dir subtree = (t, none) := by
  unfold addDirectorySubtree
  cases isParent : dir.parent with
  | none =>
    dsimp only
    have nowhere : t.findParentDirectory dir = none := by
      cases place : t.findParentDirectory dir with
      | none => rfl
      | some parent =>
        rw [(FileTreeMapStore.parentDirectory_eq_some.mp place).1] at isParent
        cases isParent
    rw [nowhere]
  | some parent =>
    have notDirectory := (open_iff rooted isParent).not.mpr isClosed
    have nowhere : (t.ensureParentDirectoriesExist parent).findParentDirectory dir = none := by
      cases place : (t.ensureParentDirectoriesExist parent).findParentDirectory dir with
      | none => rfl
      | some parent' =>
        obtain ⟨isParent', directory⟩ := FileTreeMapStore.parentDirectory_eq_some.mp place
        obtain rfl : parent = parent' := Option.some.inj (isParent.symm.trans isParent')
        exact absurd directory notDirectory
    dsimp only
    rw [nowhere]
    exact Prod.ext ((ensureParentDirectoriesExist_reaches rooted parent).resolve_left notDirectory) rfl

theorem addDirectorySubtree_open (isOpen : t.Open dir) (isParent : dir.parent = some parent) (isDir : subtree.path = dir)
    (named : subtree.Named) : ∃ t', t.addDirectorySubtree dir subtree = (t', some ⟨parent, flattenEntryMetadata subtree⟩) ∧
      t'.Rooted ∧ t'.rootPath = t.rootPath ∧ (∀ state ∈ subtree.states, t'.view state.path = some state.flags) ∧
      ∀ k, k ∉ subtree.states.map FileTreeEntryState.path → t'.view k = if dir <+: k then none
        else if k = parent then ((t.ensureParentDirectoriesExist parent).view parent).map fun flags => (flags.1, flags.2.1, true)
        else (t.ensureParentDirectoriesExist parent).view k := by
  subst isDir
  obtain ⟨rooted1, root1⟩ := ensureParentDirectoriesExist_spec rooted parent
  have directory1 := (open_iff rooted isParent).mpr isOpen
  set t1 := t.ensureParentDirectoriesExist parent with isEnsured
  obtain ⟨rooted2, root2, view2⟩ := setLoaded_spec rooted1 directory1
  have rooted3 : ((t1.setLoaded parent).remove subtree.path).Rooted := FileTreeMapStore.Rooted.remove rooted2 subtree.path
  have inside : (t1.setLoaded parent).rootPath <+: subtree.path := by
    obtain ⟨state, found, -⟩ := FileTreeMapStore.getAsDirectory_isSome.mp directory1
    obtain ⟨name, split⟩ := Path.parent_eq_some_iff.mp isParent
    rw [root2]
    exact (FileTreeMapStore.Rooted.below rooted1 (by rw [found]; rfl)).trans (split ▸ prefix_append _ _)
  have view3 : ∀ k, ((t1.setLoaded parent).remove subtree.path).view k =
      if subtree.path <+: k then none else (t1.setLoaded parent).view k := by
    intro k
    rw [rooted2.view_remove]
    simp [inside]
  set t3 := (t1.setLoaded parent).remove subtree.path with isRemoved
  have notBelow : ¬ subtree.path <+: parent := by
    obtain ⟨name, split⟩ := Path.parent_eq_some_iff.mp isParent
    rw [split]
    exact Path.not_concat_prefix
  have directory3 : (t3.stateMap.getAsDirectory parent).isSome := by
    obtain ⟨flags, found, isDirectory⟩ := directory_iff.mp directory1
    rw [directory_iff, view3, if_neg notBelow, view2, if_pos rfl, found]
    exact ⟨_, rfl, isDirectory⟩
  have place : t1.findParentDirectory subtree.path = some parent := FileTreeMapStore.parentDirectory_eq_some.mpr ⟨isParent, directory1⟩
  have nothing : ∀ k, subtree.path <+: k → t3.get k = none := by
    intro k below
    have := view3 k
    rw [if_pos below] at this
    exact Option.map_eq_none_iff.mp this
  have replaces : Operation.Replaces t3 subtree.path subtree := by
    refine ⟨.inr ?_, fun k stored below => ?_⟩
    · exact Option.isSome_iff_exists.mpr ⟨parent, FileTreeMapStore.parentDirectory_eq_some.mpr ⟨isParent, directory3⟩⟩
    · rw [nothing k below] at stored
      cases stored
  obtain ⟨rooted4, -⟩ := Rooted.insertEntryAtPath rooted3 rfl named replaces
  have view4 : ∀ k, (t3.insertEntryAtPath subtree.path subtree).view k =
      (((FileTreeMapStore.ofEntry subtree).get k).map FileTreeEntryState.flags).or (t3.view k) := by
    intro k
    unfold view
    rw [show (t3.insertEntryAtPath subtree.path subtree).get k =
      ((FileTreeMapStore.ofEntry subtree).get k).or (t3.get k) from FileTreeMapStore.get_insertEntryAtPath ..]
    cases (FileTreeMapStore.ofEntry subtree).get k <;> rfl
  refine ⟨t3.insertEntryAtPath subtree.path subtree, ?_, rooted4, root2.trans root1, fun state member => ?_, fun k other => ?_⟩
  · unfold addDirectorySubtree
    rw [isParent]
    dsimp only
    rw [← isEnsured, place]
    rfl
  · rw [view4, (FileTreeMapStore.get_ofEntry named state.path).mpr ⟨member, rfl⟩]
    rfl
  · have absent : (FileTreeMapStore.ofEntry subtree).get k = none := by
      by_contra found
      obtain ⟨state, found⟩ := Option.ne_none_iff_exists'.mp found
      obtain ⟨member, rfl⟩ := (FileTreeMapStore.get_ofEntry named k).mp found
      exact other (List.mem_map_of_mem member)
    rw [view4, absent, view3, view2]
    rfl

theorem ensure_below (isParent : dir.parent = some parent) (below : dir <+: k) :
    (t.ensureParentDirectoriesExist parent).view k = t.view k := by
  unfold view
  rw [(ensureParentDirectoriesExist_get rooted parent k).resolve_right]
  rintro ⟨-, above, -⟩
  obtain ⟨name, rfl⟩ := Path.parent_eq_some_iff.mp isParent
  exact Path.not_concat_prefix (below.trans above)

omit rooted in
theorem foldl_keeps (nodes : List RepoNodeMetadata) (k : Path) {flags : Bool × Bool × Bool} (found : t.view k = some flags) :
    ∃ flags', (nodes.foldl applyNode t).view k = some flags' ∧ (flags.1 = true → flags'.1 = true) := by
  induction nodes generalizing t flags with
  | nil => exact ⟨flags, found, id⟩
  | cons node nodes ih =>
    obtain ⟨flags', found', keeps⟩ := applyNode_keeps node k found
    obtain ⟨flags'', found'', keeps'⟩ := ih found'
    exact ⟨flags'', found'', keeps' ∘ keeps⟩

omit rooted in
theorem foldl_frame (states : List FileTreeEntryState) (other : ∀ state ∈ states, k ≠ state.path) :
    ((states.map FileTreeEntryState.node).foldl applyNode t).view k = t.view k := by
  induction states generalizing t with
  | nil => rfl
  | cons state states ih =>
    rw [map_cons, foldl_cons, ih fun state member => other state (mem_cons_of_mem _ member)]
    exact applyNode_frame (other state mem_cons_self)

theorem addDirectorySubtree_alike_iff (isOpen : t.Open dir) (isParent : dir.parent = some parent) (isDir : subtree.path = dir)
    (named : subtree.Named) : Alike (t.addDirectorySubtree dir subtree).1
      (t.applyEntryUpdate ⟨parent, flattenEntryMetadata subtree⟩) ↔ SubtreeFits t dir subtree := by
  obtain ⟨t', isResult, rooted', sameRoot, set, rest⟩ := addDirectorySubtree_open rooted isOpen isParent isDir named
  rw [isResult]
  have directory := (open_iff rooted isParent).mpr isOpen
  obtain ⟨rooted1, root1⟩ := ensureParentDirectoriesExist_spec rooted parent
  have patch : t.applyEntryUpdate ⟨parent, flattenEntryMetadata subtree⟩ =
    (subtree.states.map FileTreeEntryState.node).foldl applyNode (t.ensureParentDirectoriesExist parent) := by
      rw [← flattenEntryMetadata_eq]
      rfl
  have ensured := fun k below => ensure_below rooted isParent (k := k) below
  have ensuredParent := ensureParentDirectoriesExist_get rooted parent parent
  set t1 := t.ensureParentDirectoriesExist parent
  have notBelow : ¬ dir <+: parent := by
    obtain ⟨name, rfl⟩ := Path.parent_eq_some_iff.mp isParent
    exact Path.not_concat_prefix
  have inSubtree : ∀ state ∈ subtree.states, dir <+: state.path := fun state member => isDir ▸ named.below state member
  have notParent : ∀ state ∈ subtree.states, parent ≠ state.path := by
    rintro state member rfl
    exact notBelow (inSubtree state member)
  have parentNew : parent ∉ subtree.states.map FileTreeEntryState.path := by
    intro member
    obtain ⟨state, member, same⟩ := List.mem_map.mp member
    exact notParent state member same.symm
  obtain ⟨parentFlags, isParentFlags, parentDirectory⟩ := directory_iff.mp directory
  have loadedThere : t'.view parent = some (parentFlags.1, parentFlags.2.1, true) := by
    rw [rest parent parentNew, if_neg notBelow, if_pos rfl, isParentFlags]
    rfl
  have loadedHere : (t.applyEntryUpdate ⟨parent, flattenEntryMetadata subtree⟩).view parent = some parentFlags := by
    rw [patch, foldl_frame subtree.states notParent, isParentFlags]
  have loadedIff : t.isParentLoaded dir = true ↔ parentFlags.2.2 = true := by
    unfold isParentLoaded
    rw [isParent]
    dsimp only
    rcases ensuredParent with same | ⟨absent, -, created⟩
    · rw [← same]
      obtain ⟨state, found, rfl⟩ := Option.map_eq_some_iff.mp isParentFlags
      rw [found]
      rfl
    · rw [absent]
      unfold view at isParentFlags
      rw [created] at isParentFlags
      rw [← Option.some.inj isParentFlags]
      exact iff_of_false Bool.false_ne_true Bool.false_ne_true
  constructor
  · intro alike
    constructor
    case loaded =>
      have := alike.view parent
      rw [loadedHere, loadedThere, Option.some_inj] at this
      exact loadedIff.mpr (congrArg (·.2.2) this)
    case again =>
      intro k stored below
      rw [← isSome_view] at stored
      obtain ⟨flags, found⟩ := Option.isSome_iff_exists.mp stored
      obtain ⟨flags', kept, -⟩ := foldl_keeps (subtree.states.map FileTreeEntryState.node) k ((ensured k below).trans found)
      by_contra other
      have := alike.view k
      rw [patch, kept, rest k other, if_pos below] at this
      cases this
    case kinds =>
      intro state member flags found isDirectory
      obtain ⟨flags', kept, keeps⟩ := foldl_keeps (subtree.states.map FileTreeEntryState.node) state.path
        ((ensured _ (inSubtree state member)).trans found)
      have := alike.view state.path
      rw [patch, kept, set state member, Option.some_inj] at this
      have := keeps isDirectory
      rwa [‹flags' = state.flags›] at this
  · intro fits
    have parentKnown : subtree.path.parent = some parent := isDir ▸ isParent
    have kinds : KindsFit t1 subtree.states := by
      intro state member flags found isDirectory
      rw [ensured _ (inSubtree state member)] at found
      exact fits.kinds state member flags found isDirectory
    have placed := flatten_placed subtree rooted1 directory parentKnown named kinds
    rw [flattenEntryMetadata_eq] at placed
    refine ⟨?_, fun k => ?_⟩
    · rw [(applyEntryUpdate_spec rooted _).2]
      exact sameRoot.symm
    · rw [patch]
      by_cases known : k ∈ subtree.states.map FileTreeEntryState.path
      · obtain ⟨state, member, rfl⟩ := List.mem_map.mp known
        rw [placed.set state member]
        exact (set state member).symm
      · rw [placed.frame k fun state member same => known (same ▸ List.mem_map_of_mem member)]
        refine Eq.trans ?_ (rest k known).symm
        split_ifs with below same
        · rw [ensured k below]
          have : ¬ (t.get k).isSome := fun stored => known (fits.again k stored below)
          rw [← isSome_view] at this
          exact Option.not_isSome_iff_eq_none.mp this
        · rw [same, isParentFlags]
          have := loadedIff.mp fits.loaded
          obtain ⟨kind, ignored, loaded⟩ := parentFlags
          rw [show loaded = true from this]
          rfl
        · rfl

end AddDirectorySubtree

end FileTreeEntry

end Warp.RepoMetadata
