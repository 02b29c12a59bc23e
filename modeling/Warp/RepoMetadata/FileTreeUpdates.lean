import Warp.RepoMetadata.FileTreeEntries

namespace Warp.RepoMetadata

variable {root path parent target k : Path} {t : FileTreeEntry}

namespace FileTreeEntry

def Rooted (t : FileTreeEntry) : Prop := t.stateMap.Rooted t.rootPath

theorem containsChild_iff (rooted : t.Rooted) (directory : (t.stateMap.getAsDirectory parent).isSome)
    (named : target.parent = some parent) : t.stateMap.containsChild parent target ↔ (t.get target).isSome := by
  have other := FileTreeMapStore.Rooted.ne_root rooted directory named
  unfold FileTreeMapStore.containsChild
  rw [if_neg fun none => FileTreeMapStore.getAsDirectory_isNone.mp none directory, decide_eq_true_eq,
    FileTreeMapStore.Rooted.mem_childrenOf rooted]
  exact ⟨And.left, fun known => ⟨known, named, other⟩⟩

theorem findOrInsertDirectory_spec (rooted : t.Rooted) (directory : (t.stateMap.getAsDirectory parent).isSome)
    (named : target.parent = some parent) : (t.findOrInsertDirectory parent target).Rooted ∧
      (t.findOrInsertDirectory parent target).rootPath = t.rootPath ∧
      ∀ k, (t.findOrInsertDirectory parent target).get k =
        if k = target then (t.get target).or (some (.directory target false false)) else t.get k := by
  unfold findOrInsertDirectory
  split_ifs with contains
  · obtain ⟨existing, known⟩ := Option.isSome_iff_exists.mp ((containsChild_iff rooted directory named).mp contains)
    refine ⟨rooted, rfl, fun k => ?_⟩
    split_ifs with same
    · rw [same, known]
      rfl
    · rfl
  · have absent : t.get target = none := by
      rw [containsChild_iff rooted directory named] at contains
      exact Option.not_isSome_iff_eq_none.mp contains
    refine ⟨FileTreeMapStore.Rooted.insertChild rooted named (.inl rfl), rfl, fun k => ?_⟩
    refine (FileTreeMapStore.get_insertChild directory k).trans ?_
    rw [absent]
    rfl

def descent (root : Path) : List Str → List Path
  | [] => []
  | name :: names => (root ++ [name]) :: descent (root ++ [name]) names

theorem descent_concat (root : Path) (names : List Str) (name : Str) :
    descent root (names ++ [name]) = descent root names ++ [root ++ names ++ [name]] := by
  induction names generalizing root with
  | nil => simp [descent]
  | cons first names ih => simp [descent, ih]

theorem ancestors_concat (path : Path) (name : Str) : (path ++ [name]).ancestors = (path ++ [name]) :: path.ancestors := by
  simp [Path.ancestors, List.inits_append]

theorem ancestors_takeWhile (root : Path) (names : List Str) :
    ((root ++ names).ancestors.takeWhile (· ≠ root)).reverse = descent root names := by
  induction names using List.reverseRecOn with
  | nil =>
    rw [List.append_nil]
    rcases List.eq_nil_or_concat root with rfl | ⟨init, name, rfl⟩
    · simp [Path.ancestors, descent]
    · rw [List.concat_eq_append, ancestors_concat]
      simp [descent]
  | append_singleton init name ih =>
    rw [← List.append_assoc, ancestors_concat, descent_concat, ← ih]
    simp

theorem ensureDirectories_spec (names : List Str) {t : FileTreeEntry} {current : Path} (rooted : t.Rooted)
    (directory : (t.stateMap.getAsDirectory current).isSome) : (t.ensureDirectories current (descent current names)).Rooted ∧
      (t.ensureDirectories current (descent current names)).rootPath = t.rootPath := by
  induction names generalizing t current with
  | nil => exact ⟨rooted, rfl⟩
  | cons name names ih =>
    have named : Path.parent (current ++ [name]) = some current := Path.parent_eq_some_iff.mpr ⟨name, rfl⟩
    obtain ⟨rooted', sameRoot, get⟩ := findOrInsertDirectory_spec rooted directory named
    rw [descent, ensureDirectories]
    cases found : (t.findOrInsertDirectory current (current ++ [name])).get (current ++ [name]) with
    | none => exact ⟨rooted', sameRoot⟩
    | some state =>
      cases state with
      | file => exact ⟨rooted', sameRoot⟩
      | directory path ignored loaded =>
        have same : path = current ++ [name] := FileTreeMapStore.Rooted.keyed rooted' _ _ found
        dsimp only
        rw [same]
        have := ih rooted' (FileTreeMapStore.getAsDirectory_isSome.mpr ⟨_, found, rfl⟩)
        exact ⟨this.1, this.2.trans sameRoot⟩

theorem ensureParentDirectoriesExist_spec (rooted : t.Rooted) (target : Path) :
    (t.ensureParentDirectoriesExist target).Rooted ∧ (t.ensureParentDirectoriesExist target).rootPath = t.rootPath := by
  unfold ensureParentDirectoriesExist
  split_ifs with inside
  · cases found : t.get t.rootPath with
    | none => exact ⟨rooted, rfl⟩
    | some state =>
      cases state with
      | file => exact ⟨rooted, rfl⟩
      | directory path ignored loaded =>
        have same : path = t.rootPath := FileTreeMapStore.Rooted.keyed rooted _ _ found
        obtain ⟨names, rfl⟩ := Path.startsWith_iff.mp inside
        dsimp only
        rw [same, ancestors_takeWhile]
        exact ensureDirectories_spec names rooted (FileTreeMapStore.getAsDirectory_isSome.mpr ⟨_, found, rfl⟩)
  · exact ⟨rooted, rfl⟩

theorem applyNode_spec (rooted : t.Rooted) (node : RepoNodeMetadata) :
    (t.applyNode node).Rooted ∧ (t.applyNode node).rootPath = t.rootPath := by
  cases node with
  | directory path ignored loaded =>
    unfold applyNode
    dsimp only
    cases isParent : t.findParentDirectory path with
    | none => exact ⟨rooted, rfl⟩
    | some parent =>
      exact ⟨FileTreeMapStore.Rooted.insertChild rooted (FileTreeMapStore.parentDirectory_eq_some.mp isParent).1 (.inl rfl), rfl⟩
  | file path extension ignored =>
    unfold applyNode
    dsimp only
    cases found : t.get path with
    | some existing =>
      refine ⟨FileTreeMapStore.Rooted.replace rooted found ?_ (by simp), rfl⟩
      rw [FileTreeEntryState.path_setIgnored]
      exact FileTreeMapStore.Rooted.keyed rooted _ _ found
    | none =>
      dsimp only
      cases isParent : t.findParentDirectory path with
      | none => exact ⟨rooted, rfl⟩
      | some parent =>
        obtain ⟨named, directory⟩ := FileTreeMapStore.parentDirectory_eq_some.mp isParent
        refine ⟨FileTreeMapStore.Rooted.insertChild rooted named (.inr fun k known below => ?_), rfl⟩
        -- Nothing is stored below a path that is not stored itself.
        obtain ⟨state, isState, -⟩ := FileTreeMapStore.getAsDirectory_isSome.mp directory
        obtain ⟨name, rfl⟩ := Path.parent_eq_some_iff.mp named
        have inside := (FileTreeMapStore.Rooted.below rooted (by rw [isState]; rfl)).trans (List.prefix_append parent [name])
        have stored : (t.get (parent ++ [name])).isSome := FileTreeMapStore.Rooted.closed rooted known below inside
        rw [found] at stored
        cases stored

theorem foldl_rooted {A : Type} {f : FileTreeEntry → A → FileTreeEntry}
    (one : ∀ t a, t.Rooted → (f t a).Rooted ∧ (f t a).rootPath = t.rootPath) (rooted : t.Rooted) (as : List A) :
    (as.foldl f t).Rooted ∧ (as.foldl f t).rootPath = t.rootPath := by
  induction as generalizing t with
  | nil => exact ⟨rooted, rfl⟩
  | cons a as ih =>
    obtain ⟨next, sameRoot⟩ := one t a rooted
    obtain ⟨last, sameRoot'⟩ := ih next
    exact ⟨last, sameRoot'.trans sameRoot⟩

theorem applyEntryUpdate_spec (rooted : t.Rooted) (update : FileTreeEntryUpdate) :
    (t.applyEntryUpdate update).Rooted ∧ (t.applyEntryUpdate update).rootPath = t.rootPath := by
  obtain ⟨start, sameRoot⟩ := ensureParentDirectoriesExist_spec rooted update.parentPathToReplace
  obtain ⟨last, sameRoot'⟩ := foldl_rooted (fun _ node rooted => applyNode_spec rooted node) start update.subtreeMetadata
  exact ⟨last, sameRoot'.trans sameRoot⟩

theorem applyRepoMetadataUpdate_spec (rooted : t.Rooted) (update : RepoMetadataUpdate) :
    (t.applyRepoMetadataUpdate update).Rooted ∧ (t.applyRepoMetadataUpdate update).rootPath = t.rootPath := by
  have removed : ∀ (t : FileTreeEntry) (path : Path), t.Rooted → (t.remove path).Rooted ∧ (t.remove path).rootPath = t.rootPath :=
    fun t path rooted => ⟨FileTreeMapStore.Rooted.remove rooted path, rfl⟩
  obtain ⟨start, sameRoot⟩ := foldl_rooted removed rooted update.removeEntries
  obtain ⟨last, sameRoot'⟩ := foldl_rooted (fun _ update rooted => applyEntryUpdate_spec rooted update) start
    update.updateEntries
  exact ⟨last, sameRoot'.trans sameRoot⟩

end FileTreeEntry

end Warp.RepoMetadata
