import Warp.Lib.Trace
import Warp.RepoMetadata.FileTreeRename
import Warp.RepoMetadata.FileTreeUpdates

namespace Warp.RepoMetadata

variable {root path newPath k : Path} {value entry : Entry} {state : FileTreeEntryState} {t : FileTreeEntry}

namespace FileTreeEntry

/-- The entries that are found from the root through the lists of children. -/
inductive Reachable (t : FileTreeEntry) : Path → Prop where
  | root : (t.get t.rootPath).isSome → Reachable t t.rootPath
  | child {path child : Path} : Reachable t path → child ∈ t.stateMap.children path → Reachable t child

structure IsTree (t : FileTreeEntry) : Prop where
  parents : ∀ k, (t.get k).isSome → k ≠ t.rootPath →
    ∃ q, k.parent = some q ∧ (t.stateMap.getAsDirectory q).isSome ∧ k ∈ t.stateMap.childrenOf q
  listed : ∀ q, ∀ c ∈ t.stateMap.childrenOf q, (t.get c).isSome ∧ c.parent = some q
  reachable : ∀ k, (t.get k).isSome → t.Reachable k

theorem Rooted.reachable (rooted : t.Rooted) (known : (t.get k).isSome) : t.Reachable k := by
  induction k using List.reverseRecOn with
  | nil =>
    have same := List.prefix_nil.mp (FileTreeMapStore.Rooted.below rooted known)
    rw [← same] at known ⊢
    exact .root known
  | append_singleton init name ih =>
    by_cases same : init ++ [name] = t.rootPath
    · rw [same] at known ⊢
      exact .root known
    · obtain ⟨q, isParent, directory, member⟩ := FileTreeMapStore.Rooted.parents rooted _ known same
      obtain rfl : init = q := Option.some.inj ((Path.parent_eq_some_iff.mpr ⟨name, rfl⟩).symm.trans isParent)
      have stored : (t.get init).isSome := by
        obtain ⟨state, found, -⟩ := FileTreeMapStore.getAsDirectory_isSome.mp directory
        exact Option.isSome_iff_exists.mpr ⟨state, found⟩
      refine .child (ih stored) ?_
      unfold FileTreeMapStore.children
      rwa [if_neg fun none => FileTreeMapStore.getAsDirectory_isNone.mp none directory]

theorem Rooted.isTree (rooted : t.Rooted) : t.IsTree where
  parents := FileTreeMapStore.Rooted.parents rooted
  listed q c member := (FileTreeMapStore.Rooted.listed rooted q c member).imp_right And.left
  reachable _ known := reachable rooted known

inductive Operation where
  | insertChildState (parentPath : Path) (childState : FileTreeEntryState)
  | insertEntryAtPath (path : Path) (entry : Entry)
  | loadAtPath (path : Path) (read : Option Entry)
  | remove (path : Path)
  | renamePath (path newPath : Path)
  | applyRepoMetadataUpdate (update : RepoMetadataUpdate)

def perform (t : FileTreeEntry) : Operation → FileTreeEntry
  | .insertChildState parentPath childState => t.insertChildState parentPath childState
  | .insertEntryAtPath path entry => t.insertEntryAtPath path entry
  | .loadAtPath path read => t.loadAtPath path read
  | .remove path => t.remove path
  | .renamePath path newPath => t.renamePath path newPath
  | .applyRepoMetadataUpdate update => t.applyRepoMetadataUpdate update

namespace Operation

def Named : Operation → Prop
  | insertChildState parentPath childState => childState.path.parent = some parentPath
  | insertEntryAtPath path entry => entry.path = path ∧ entry.Named
  | loadAtPath path read => ∀ entry ∈ read, entry.path = path ∧ entry.Named
  | _ => True

def Below (t : FileTreeEntry) (path : Path) (P : Path → Prop) : Prop := ∀ k, (t.get k).isSome → path <+: k → P k

instance (t : FileTreeEntry) (path : Path) (P : Path → Prop) [DecidablePred P] : Decidable (Below t path P) :=
  decidable_of_iff (∀ k ∈ t.stateMap.stateMap.keys, path <+: k → P k)
    (forall_congr' fun _ => imp_congr_left HashMap.get?_isSome_iff.symm)

/-- The entry has a place in the tree, and nothing that is stored at the place is missing in the entry. -/
def Replaces (t : FileTreeEntry) (path : Path) (entry : Entry) : Prop :=
  (path = t.rootPath ∨ (t.findParentDirectory path).isSome) ∧ Below t path (· ∈ entry.states.map FileTreeEntryState.path)

instance (t : FileTreeEntry) (path : Path) (entry : Entry) : Decidable (Replaces t path entry) :=
  inferInstanceAs (Decidable (_ ∧ _))

/-- The operation leaves no entry behind that it takes out of the tree. -/
def Fits (t : FileTreeEntry) : Operation → Prop
  | insertChildState parentPath childState =>
    childState.isDirectory ∨ Below t childState.path (· = childState.path) ∨ (t.stateMap.getAsDirectory parentPath).isNone
  | insertEntryAtPath path entry => Replaces t path entry
  | loadAtPath path read => ∀ entry ∈ read, Replaces t path entry
  | renamePath path newPath => (t.get path).isNone ∨ (t.findParentDirectory newPath).isNone ∨ path = newPath ∨
      ¬ path <+: newPath ∧ Below t newPath (· = newPath)
  | remove _ | applyRepoMetadataUpdate _ => True

instance (t : FileTreeEntry) : DecidablePred (Fits t)
  | insertChildState .. => inferInstanceAs (Decidable (_ ∨ _))
  | insertEntryAtPath .. => inferInstanceAs (Decidable (Replaces ..))
  | loadAtPath _ none => .isTrue nofun
  | loadAtPath path (some entry) => decidable_of_iff (Replaces t path entry) ⟨fun replaces _ isRead => Option.some.inj isRead ▸ replaces, fun all => all entry rfl⟩
  | renamePath .. => inferInstanceAs (Decidable (_ ∨ _))
  | remove _ | applyRepoMetadataUpdate _ => .isTrue trivial

def Reread (t : FileTreeEntry) : Operation → Prop
  | insertEntryAtPath path entry => Below t path (· ∈ entry.states.map FileTreeEntryState.path)
  | loadAtPath path read => ∀ entry ∈ read, Below t path (· ∈ entry.states.map FileTreeEntryState.path)
  | _ => True

end Operation

open Operation

theorem Rooted.insertEntryAtPath (rooted : t.Rooted) (isPath : entry.path = path) (named : entry.Named)
    (replaces : Replaces t path entry) : (t.insertEntryAtPath path entry).Rooted ∧
      Below (t.insertEntryAtPath path entry) path (· ∈ entry.states.map FileTreeEntryState.path) := by
  subst isPath
  obtain ⟨place, again⟩ := replaces
  have again : ∀ k, (t.get k).isSome → entry.path <+: k → ∃ state ∈ entry.states, state.path = k :=
    fun k known below => List.mem_map.mp (again k known below)
  refine ⟨FileTreeMapStore.Rooted.insertEntryAtPath rooted named place again, fun k known below => List.mem_map.mpr ?_⟩
  have known : ((t.stateMap.insertEntryAtPath entry.path entry).get k).isSome := known
  rw [FileTreeMapStore.get_insertEntryAtPath, Option.isSome_or, Bool.or_eq_true,
    FileTreeMapStore.get_ofEntry_isSome named] at known
  exact known.elim id fun known => again k known below

theorem Rooted.renamePath (rooted : t.Rooted) (fits : Fits t (.renamePath path newPath)) : (t.renamePath path newPath).Rooted := by
  show FileTreeMapStore.Rooted t.rootPath (t.stateMap.renamePath path newPath)
  rcases fits with absent | absent | rfl | ⟨apart, below⟩
  · rw [FileTreeMapStore.renamePath_eq_self (.inl (Option.isNone_iff_eq_none.mp absent))]
    exact rooted
  · rw [FileTreeMapStore.renamePath_eq_self (.inr (Option.isNone_iff_eq_none.mp absent))]
    exact rooted
  · exact (FileTreeMapStore.Rooted.renamePath_self rooted path).rooted rooted
  · cases found : t.stateMap.get path with
    | none =>
      rw [FileTreeMapStore.renamePath_eq_self (.inl found)]
      exact rooted
    | some item =>
      refine FileTreeMapStore.Free.renamePath ⟨rooted, ⟨apart, fun above => apart ?_⟩, below⟩
      exact below path (Option.isSome_iff_exists.mpr ⟨item, found⟩) above ▸ List.prefix_rfl

theorem Rooted.perform (rooted : t.Rooted) (a : Operation) (named : a.Named) (fits : a.Fits t) :
    (t.perform a).Rooted ∧ a.Reread (t.perform a) := by
  cases a with
  | insertChildState parentPath childState =>
    refine ⟨?_, trivial⟩
    rcases fits with directory | below | none
    · exact FileTreeMapStore.Rooted.insertChild rooted named (.inl directory)
    · exact FileTreeMapStore.Rooted.insertChild rooted named (.inr below)
    · show FileTreeMapStore.Rooted t.rootPath (t.stateMap.insertChild parentPath childState)
      rw [FileTreeMapStore.insertChild_of_not_directory (FileTreeMapStore.getAsDirectory_isNone.mp none)]
      exact rooted
  | insertEntryAtPath path entry => exact insertEntryAtPath rooted named.1 named.2 fits
  | loadAtPath path read =>
    cases read with
    | none => exact ⟨rooted, nofun⟩
    | some entry =>
      obtain ⟨isPath, named⟩ := named entry rfl
      obtain ⟨rooted', only⟩ := insertEntryAtPath rooted isPath named (fits entry rfl)
      refine ⟨rooted', ?_⟩
      rintro _ ⟨⟩
      exact only
  | remove path => exact ⟨FileTreeMapStore.Rooted.remove rooted path, trivial⟩
  | renamePath path newPath => exact ⟨renamePath rooted fits, trivial⟩
  | applyRepoMetadataUpdate update => exact ⟨(applyRepoMetadataUpdate_spec rooted update).1, trivial⟩

/-- The shape of the tree in every state of a run, and after each reading of the disk. -/
structure StaysTree (t : FileTreeEntry) (operations : List Operation) : Prop where
  isTree : ∀ before, before <+: operations → (before.foldl perform t).IsTree
  reread : Trace.Every perform (fun t a => a.Reread (t.perform a)) t operations

theorem ofEntry_rooted (named : value.Named) : (ofEntry value).Rooted := (FileTreeMapStore.ofEntry_appended named).rooted

def folder (path : Path) (names : List Char) : Entry :=
  .directory path (names.map fun name => .file (path ++ [[name]]) none false) false true

theorem folder_named {path : Path} {names : List Char} (distinct : names.Nodup) : (folder path names).Named := by
  unfold folder Entry.Named
  induction names with
  | nil => trivial
  | cons name names ih =>
    obtain ⟨fresh, distinct⟩ := List.nodup_cons.mp distinct
    refine ⟨⟨Path.parent_eq_some_iff.mpr ⟨[name], rfl⟩, trivial⟩, ?_, ih distinct⟩
    intro again
    obtain ⟨entry, member, same⟩ := List.mem_map.mp again
    obtain ⟨other, among, rfl⟩ := List.mem_map.mp member
    have : other = name := by simpa [Entry.path] using same
    exact fresh (this ▸ among)

theorem renamePath_moves_file :
    let s := FileTreeMapStore.ofEntry (folder [['r']] ['a', 'b'])
    (s.renamePathReturning [['r'], ['a']] [['r'], ['c']]).2 = true ∧
      (∀ k entry, (s.renamePathReturning [['r'], ['a']] [['r'], ['c']]).1.get k = some entry ↔
        (∃ rest before, k = [['r'], ['c']] ++ rest ∧ s.get ([['r'], ['a']] ++ rest) = some before ∧
            entry = before.setPath k) ∨
          ¬ [['r'], ['a']] <+: k ∧ s.get k = some entry) := by
  have named : (folder [['r']] ['a', 'b']).Named := folder_named (by decide)
  have tree : FileTreeMapStore.Rooted [['r']] (FileTreeMapStore.ofEntry (folder [['r']] ['a', 'b'])) :=
    (FileTreeMapStore.ofEntry_appended named).rooted
  obtain ⟨isMoved, moved, -⟩ := tree.renamePath_moves (by decide +kernel : (FileTreeMapStore.get _ [['r'], ['a']]).isSome)
    (by decide +kernel : FileTreeMapStore.get _ [['r'], ['c']] = none) (by decide)
  have renamed := isMoved.mpr ⟨[['r']], by decide, by decide +kernel⟩
  exact ⟨renamed, (moved renamed).1⟩

end FileTreeEntry

end Warp.RepoMetadata
