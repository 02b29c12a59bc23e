import Warp.RepoMetadata.Mirror
import Warp.RepoMetadata.Mutations

namespace Warp.RepoMetadata

variable {path parent target dir k q : Path} {t t' : FileTreeEntry} {state : FileTreeEntryState} {states : List FileTreeEntryState}
  {entry : Entry}

namespace FileTreeEntry

theorem findOrInsertDirectory_of_stored (rooted : t.Rooted) (directory : (t.stateMap.getAsDirectory parent).isSome)
    (named : target.parent = some parent) (stored : (t.get target).isSome) : t.findOrInsertDirectory parent target = t :=
  if_pos ((containsChild_iff rooted directory named).mpr stored)

theorem ensureDirectories_reaches (names : List Str) {t : FileTreeEntry} {current : Path} (rooted : t.Rooted)
    (directory : (t.stateMap.getAsDirectory current).isSome) :
    (((t.ensureDirectories current (descent current names)).stateMap.getAsDirectory (current ++ names)).isSome ∨
      t.ensureDirectories current (descent current names) = t) ∧
    ((∀ name rest, names = name :: rest → t.get (current ++ [name]) = none) →
      ((t.ensureDirectories current (descent current names)).stateMap.getAsDirectory (current ++ names)).isSome) := by
  induction names generalizing t current with
  | nil =>
    rw [List.append_nil]
    exact ⟨.inl directory, fun _ => directory⟩
  | cons name names ih =>
    have named : Path.parent (current ++ [name]) = some current := Path.parent_eq_some_iff.mpr ⟨name, rfl⟩
    obtain ⟨rooted', -, get⟩ := findOrInsertDirectory_spec rooted directory named
    have onward : current ++ name :: names = current ++ [name] ++ names := by simp
    rw [descent, ensureDirectories, onward]
    by_cases stored : (t.get (current ++ [name])).isSome
    · rw [findOrInsertDirectory_of_stored rooted directory named stored]
      refine ⟨?_, fun fresh => absurd stored (by rw [fresh name names rfl]; exact Bool.false_ne_true)⟩
      obtain ⟨state, found⟩ := Option.isSome_iff_exists.mp stored
      rw [found]
      cases state with
      | file => exact .inr rfl
      | directory path ignored loaded =>
        have same : path = current ++ [name] := FileTreeMapStore.Rooted.keyed rooted _ _ found
        dsimp only
        rw [same]
        exact (ih rooted (FileTreeMapStore.getAsDirectory_isSome.mpr ⟨_, found, rfl⟩)).1
    · have absent : t.get (current ++ [name]) = none := Option.not_isSome_iff_eq_none.mp stored
      have created := get (current ++ [name])
      rw [if_pos rfl, absent, Option.none_or] at created
      rw [created]
      dsimp only
      have below := (ih rooted' (FileTreeMapStore.getAsDirectory_isSome.mpr ⟨_, created, rfl⟩)).2 fun name' rest _ => by
        rw [get, if_neg (by simp)]
        -- Nothing is stored below a path that is not stored.
        cases found : t.get (current ++ [name] ++ [name']) with
        | none => rfl
        | some state =>
          obtain ⟨top, isTop, -⟩ := FileTreeMapStore.getAsDirectory_isSome.mp directory
          have inside := (FileTreeMapStore.Rooted.below rooted (by rw [isTop]; rfl)).trans (List.prefix_append current [name])
          exact absurd (FileTreeMapStore.Rooted.closed rooted (by exact Option.isSome_iff_exists.mpr ⟨state, found⟩)
            (List.prefix_append _ _) inside) stored
      exact ⟨.inl below, fun _ => below⟩

theorem ensureDirectories_get (names : List Str) {t : FileTreeEntry} {current : Path} (rooted : t.Rooted)
    (directory : (t.stateMap.getAsDirectory current).isSome) (k : Path) :
    (t.ensureDirectories current (descent current names)).get k = t.get k ∨
      t.get k = none ∧ k <+: current ++ names ∧
        (t.ensureDirectories current (descent current names)).get k = some (.directory k false false) := by
  induction names generalizing t current with
  | nil => exact .inl rfl
  | cons name names ih =>
    have named : Path.parent (current ++ [name]) = some current := Path.parent_eq_some_iff.mpr ⟨name, rfl⟩
    obtain ⟨rooted', -, get⟩ := findOrInsertDirectory_spec rooted directory named
    have onward : current ++ name :: names = current ++ [name] ++ names := by simp
    have first : (t.findOrInsertDirectory current (current ++ [name])).get k = t.get k ∨ t.get k = none ∧
        k <+: current ++ [name] ++ names ∧
        (t.findOrInsertDirectory current (current ++ [name])).get k = some (.directory k false false) := by
      rw [get]
      split_ifs with same
      · rw [same]
        cases found : t.get (current ++ [name]) with
        | none => exact .inr ⟨rfl, List.prefix_append _ _, rfl⟩
        | some state => exact .inl rfl
      · exact .inl rfl
    rw [descent, ensureDirectories, onward]
    cases found : (t.findOrInsertDirectory current (current ++ [name])).get (current ++ [name]) with
    | none => exact first
    | some state =>
      cases state with
      | file => exact first
      | directory path ignored loaded =>
        have same : path = current ++ [name] := FileTreeMapStore.Rooted.keyed rooted' _ _ found
        dsimp only
        rw [same]
        rcases ih rooted' (FileTreeMapStore.getAsDirectory_isSome.mpr ⟨_, found, rfl⟩) with later | ⟨absent, onWay, created⟩
        · rw [later]
          exact first
        · rcases first with before | ⟨-, -, before⟩
          · exact .inr ⟨before ▸ absent, onWay, created⟩
          · rw [absent] at before
            cases before

theorem ensureParentDirectoriesExist_reaches (rooted : t.Rooted) (target : Path) :
    ((t.ensureParentDirectoriesExist target).stateMap.getAsDirectory target).isSome ∨
      t.ensureParentDirectoriesExist target = t := by
  unfold ensureParentDirectoriesExist
  split_ifs with inside
  · cases found : t.get t.rootPath with
    | none => exact .inr rfl
    | some state =>
      cases state with
      | file => exact .inr rfl
      | directory path ignored loaded =>
        have same : path = t.rootPath := FileTreeMapStore.Rooted.keyed rooted _ _ found
        obtain ⟨names, rfl⟩ := Path.startsWith_iff.mp inside
        dsimp only
        rw [same, ancestors_takeWhile]
        exact (ensureDirectories_reaches names rooted (FileTreeMapStore.getAsDirectory_isSome.mpr ⟨_, found, rfl⟩)).1
  · exact .inr rfl

theorem ensureParentDirectoriesExist_get (rooted : t.Rooted) (target k : Path) :
    (t.ensureParentDirectoriesExist target).get k = t.get k ∨
      t.get k = none ∧ k <+: target ∧ (t.ensureParentDirectoriesExist target).get k = some (.directory k false false) := by
  unfold ensureParentDirectoriesExist
  split_ifs with inside
  · cases found : t.get t.rootPath with
    | none => exact .inl rfl
    | some state =>
      cases state with
      | file => exact .inl rfl
      | directory path ignored loaded =>
        have same : path = t.rootPath := FileTreeMapStore.Rooted.keyed rooted _ _ found
        obtain ⟨names, rfl⟩ := Path.startsWith_iff.mp inside
        dsimp only
        rw [same, ancestors_takeWhile]
        exact ensureDirectories_get names rooted (FileTreeMapStore.getAsDirectory_isSome.mpr ⟨_, found, rfl⟩) k
  · exact .inl rfl

/-- An addition does nothing, or what the patch of its node does that is emitted for it. -/
def Patched (t : FileTreeEntry) (path : Path) (node : RepoNodeMetadata) (result : FileTreeEntry × Option FileTreeEntryUpdate) :
    Prop :=
  result = (t, none) ∨ ∃ parent, path.parent = some parent ∧
    result = (t.applyEntryUpdate ⟨parent, [node]⟩, some ⟨parent, [node]⟩)

theorem addFile_patched (rooted : t.Rooted) (path : Path) (isIgnored : Bool) (extension : Option Str) :
    Patched t path (.file path extension isIgnored) (t.addFile path isIgnored extension) := by
  unfold addFile
  cases isParent : path.parent with
  | none => exact .inl rfl
  | some parent =>
    dsimp only
    cases place : (t.ensureParentDirectoriesExist parent).findParentDirectory path with
    | none =>
      refine .inl (Prod.ext ?_ rfl)
      refine (ensureParentDirectoriesExist_reaches rooted parent).resolve_left fun directory => ?_
      rw [show (t.ensureParentDirectoriesExist parent).findParentDirectory path = some parent from
        FileTreeMapStore.parentDirectory_eq_some.mpr ⟨isParent, directory⟩] at place
      cases place
    | some parentDir =>
      refine .inr ⟨parent, isParent, Prod.ext ?_ rfl⟩
      show _ = (t.ensureParentDirectoriesExist parent).applyNode (.file path extension isIgnored)
      unfold applyNode
      dsimp only
      cases (t.ensureParentDirectoriesExist parent).get path with
      | some existing => rfl
      | none =>
        rw [place]

theorem addEmptyDirectory_patched (rooted : t.Rooted) (path : Path) (isIgnored : Bool) :
    Patched t path (.directory path isIgnored false) (t.addEmptyDirectory path isIgnored) := by
  unfold addEmptyDirectory
  cases isParent : path.parent with
  | none => exact .inl rfl
  | some parent =>
    dsimp only
    cases place : (t.ensureParentDirectoriesExist parent).findParentDirectory path with
    | none =>
      refine .inl (Prod.ext ?_ rfl)
      refine (ensureParentDirectoriesExist_reaches rooted parent).resolve_left fun directory => ?_
      rw [show (t.ensureParentDirectoriesExist parent).findParentDirectory path = some parent from
        FileTreeMapStore.parentDirectory_eq_some.mpr ⟨isParent, directory⟩] at place
      cases place
    | some parentDir =>
      refine .inr ⟨parent, isParent, Prod.ext ?_ rfl⟩
      show _ = (t.ensureParentDirectoriesExist parent).applyNode (.directory path isIgnored false)
      unfold applyNode
      dsimp only
      rw [place]

end FileTreeEntry

end Warp.RepoMetadata
