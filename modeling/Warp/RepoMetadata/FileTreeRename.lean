import Warp.RepoMetadata.FileTreeRelocate

namespace Warp.RepoMetadata.FileTreeMapStore

open List

variable {root source target parent q c k : Path} {old s t : FileTreeMapStore} {item : FileTreeEntryState}

section Start

variable (free : Free root old source target) (known : old.get source = some item) (isParent : target.parent = some parent)

include free known isParent

theorem Relocated.start
    (get : ∀ k, t.get k = if k = target then some (item.setPath target) else if k = source then none else old.get k)
    (mem : ∀ q c, c ∈ t.childrenOf q ↔ if q = target then c ∈ old.childrenOf source else if q = source then False
      else c = target ∧ q = parent ∨ c ∈ old.childrenOf q ∧ c ≠ source) :
    Relocated old source target (· = []) (fun _ => False) t := by
  have apart := free.apart.ne [] []
  rw [append_nil, append_nil] at apart
  constructor
  · intro k entry
    rw [get]
    split_ifs with atTarget atSource
    · rw [Option.some_inj]
      constructor
      · rintro rfl
        exact .inl ⟨[], rfl, by rw [atTarget, append_nil], item, by rw [append_nil, known], by rw [atTarget]⟩
      · rintro (⟨rest, rfl, -, before, found, rfl⟩ | ⟨-, other, -⟩)
        · rw [append_nil, known] at found
          rw [Option.some.inj found, atTarget]
        · exact absurd atTarget other
    · refine iff_of_false nofun ?_
      rintro (⟨rest, rfl, same, -⟩ | ⟨other, -, -⟩)
      · exact atTarget (same.trans (append_nil _))
      · exact other [] rfl (atSource.trans (append_nil _).symm)
    · constructor
      · intro found
        refine .inr ⟨?_, atTarget, found⟩
        rintro rest rfl
        rwa [append_nil]
      · rintro (⟨rest, rfl, same, -⟩ | ⟨-, -, found⟩)
        · exact absurd (same.trans (append_nil _)) atTarget
        · exact found
  · intro q c
    rw [mem]
    split_ifs with atTarget atSource
    · constructor
      · intro member
        obtain ⟨name, rfl⟩ := Path.parent_eq_some_iff.mp (free.rooted.listed _ c member).2.1
        refine .inl ⟨[], name, rfl, by rw [atTarget, append_nil], ?_, .inr ⟨id, ?_⟩⟩
        · rwa [append_nil]
        · rw [append_nil]
      · rintro (⟨rest, name, rfl, -, member, ⟨absurd, -⟩ | ⟨-, rfl⟩⟩ | ⟨-, member, -⟩ | ⟨rfl, isParent'⟩)
        · exact absurd.elim
        · rwa [append_nil] at member ⊢
        · obtain ⟨stored, isParent', -⟩ := free.rooted.listed q c member
          obtain ⟨name, rfl⟩ := Path.parent_eq_some_iff.mp isParent'
          have := free.below _ stored (atTarget ▸ prefix_append _ _)
          rw [atTarget] at this
          simp at this
        · exact absurd atTarget (Path.ne_of_parent isParent')
    · refine iff_of_false id ?_
      rintro (⟨rest, name, rfl, same, -⟩ | ⟨other, -, -⟩ | ⟨rfl, isParent'⟩)
      · exact atTarget (same.trans (append_nil _))
      · exact other [] rfl (atSource.trans (append_nil _).symm)
      · obtain ⟨name, split⟩ := Path.parent_eq_some_iff.mp isParent'
        exact free.apart.left (atSource ▸ split ▸ prefix_append _ _)
    · constructor
      · rintro (⟨rfl, rfl⟩ | ⟨member, other⟩)
        · exact .inr (.inr ⟨rfl, isParent⟩)
        · refine .inr (.inl ⟨?_, member, other⟩)
          rintro rest rfl
          rwa [append_nil]
      · rintro (⟨rest, name, rfl, same, -⟩ | ⟨-, member, other⟩ | ⟨rfl, isParent'⟩)
        · exact absurd (same.trans (append_nil _)) atTarget
        · exact .inr ⟨member, other⟩
        · exact .inl ⟨rfl, Option.some.inj (isParent'.symm.trans isParent)⟩

end Start

def relabelled (s : FileTreeMapStore) (path newPath newParentPath : Path) (item : FileTreeEntryState) : FileTreeMapStore :=
  let self := (s.removeItemAndParent path).insertState newPath (item.setPath newPath)
  self.setChildren newParentPath ((self.childrenOf newParentPath).insert newPath)

theorem renamePath_eq {path newPath newParentPath : Path} (known : s.get path = some item)
    (isParent : s.parentDirectory newPath = some newParentPath) : s.renamePath path newPath =
      if item.isDirectory then (s.relabelled path newPath newParentPath item).followed path newPath s.depth path newPath
      else s.relabelled path newPath newParentPath item := by
  unfold renamePath
  rw [known, isParent]
  exact if_congr Iff.rfl (followed_eq ..) rfl

theorem renamePath_eq_self {path newPath : Path} (absent : s.get path = none ∨ s.parentDirectory newPath = none) :
    s.renamePath path newPath = s := by
  unfold renamePath
  rcases absent with absent | absent
  · rw [absent]
  · rw [absent]
    cases s.get path <;> rfl

theorem Rooted.relabelled (rooted : Rooted root s) (path newPath newParentPath : Path) (item : FileTreeEntryState) :
    (∀ k, (s.relabelled path newPath newParentPath item).get k =
      if k = newPath then some (item.setPath newPath) else if k = path then none else s.get k) ∧
    ∀ q c, c ∈ (s.relabelled path newPath newParentPath item).childrenOf q ↔
      c = newPath ∧ q = newParentPath ∨ c ∈ s.childrenOf q ∧ c ≠ path := by
  obtain ⟨get, mem⟩ := (Minus.refl s).removeItemAndParent rooted path
  unfold FileTreeMapStore.relabelled
  refine ⟨fun k => ?_, fun q c => ?_⟩
  · rw [get_setChildren, get_insertState, get]
  · dsimp only
    rw [childrenOf_setChildren, childrenOf_insertState, childrenOf_insertState]
    split_ifs with same
    · rw [HashSet.mem_insert, mem, same]
      simp
    · rw [mem]
      simp [same]

theorem Free.relocated {parent : Path} (free : Free root old source target) (known : old.get source = some item)
    (place : old.parentDirectory target = some parent) :
    Relocated old source target (fun _ => True) (· ≠ []) (old.renamePath source target) := by
  obtain ⟨isParent, directory⟩ := parentDirectory_eq_some.mp place
  obtain ⟨get, mem⟩ := free.rooted.relabelled source target parent item
  have apart := free.apart.ne [] []
  rw [append_nil, append_nil] at apart
  have otherParent := Path.ne_of_parent isParent
  have nothing : ∀ c, c ∉ old.childrenOf target := by
    intro c member
    obtain ⟨stored, isParent, -⟩ := free.rooted.listed target c member
    obtain ⟨name, rfl⟩ := Path.parent_eq_some_iff.mp isParent
    simpa using free.below _ stored (prefix_append _ _)
  have nothingYet : ∀ c, c ∉ (old.relabelled source target parent item).childrenOf target := by
    intro c member
    rcases (mem target c).mp member with ⟨-, same⟩ | ⟨member, -⟩
    · exact otherParent same.symm
    · exact nothing c member
  have sourceChildren : ∀ c, c ∈ (old.relabelled source target parent item).childrenOf source ↔ c ∈ old.childrenOf source := by
    intro c
    rw [mem]
    constructor
    · rintro (⟨-, rfl⟩ | ⟨member, -⟩)
      · obtain ⟨name, rfl⟩ := Path.parent_eq_some_iff.mp isParent
        exact absurd (prefix_append _ _) free.apart.left
      · exact member
    · exact fun member => .inr ⟨member, (Path.ne_of_parent (free.rooted.listed _ c member).2.1).symm⟩
  have below : ∀ rest, (old.get (source ++ rest)).isSome →
      (rest ≠ [] ↔ ∃ c, c ∈ old.childrenOf source ∧ c <+: source ++ rest) := by
    intro rest stored
    constructor
    · intro some
      obtain ⟨name, more, rfl⟩ := exists_cons_of_ne_nil some
      have above : source ++ [name] <+: source ++ name :: more := ⟨more, by simp⟩
      have inside : root <+: source := free.rooted.below (by rw [known]; rfl)
      have stored' := free.rooted.closed stored above (inside.trans (prefix_append _ _))
      refine ⟨_, free.rooted.mem_childrenOf.mpr ⟨stored', Path.parent_eq_some_iff.mpr ⟨name, rfl⟩, ?_⟩, above⟩
      exact fun same => Path.not_concat_prefix (same ▸ inside)
    · rintro ⟨c, member, below⟩ rfl
      obtain ⟨name, rfl⟩ := Path.parent_eq_some_iff.mp (free.rooted.listed _ c member).2.1
      exact Path.not_concat_prefix (append_nil source ▸ below)
  rw [renamePath_eq known place]
  split_ifs with isDirectory
  · have started : Relocated old source target (· = []) (fun _ => False)
        ((old.relabelled source target parent item).moveChildren source target) := by
      apply Relocated.start free known isParent
      · intro k
        rw [get_moveChildren, get]
      · intro q c
        rw [mem_moveChildren _ apart nothingYet, sourceChildren, mem]
    set children := (old.relabelled source target parent item).childrenOf source
    have listed : ∀ c ∈ children.elems, c ∈ old.childrenOf (source ++ []) := by
      intro c member
      rw [append_nil]
      exact (sourceChildren c).mp member
    have fresh : ∀ c ∈ children.elems, ∀ rest, c <+: source ++ rest → ¬ rest = [] ∧ ¬ False := by
      intro c member rest isBelow
      refine ⟨?_, id⟩
      rintro rfl
      obtain ⟨name, rfl⟩ := Path.parent_eq_some_iff.mp (free.rooted.listed _ c ((sourceChildren c).mp member)).2.1
      exact Path.not_concat_prefix (append_nil source ▸ isBelow)
    have moved := Relocated.folded free (Relocated.updatePathsUpTo free old.depth) children.elems _ _ _ children.distinct
      listed started rfl fresh fun k stored _ => by
        have := length_lt_depth stored
        omega
    refine moved.congr free.rooted fun rest stored => ?_
    have same := below rest stored
    have all : (∃ c ∈ children.elems, c <+: source ++ rest) ↔ rest ≠ [] := by
      rw [same]
      exact exists_congr fun c => and_congr_left' (sourceChildren c)
    rw [all, false_or]
    exact ⟨iff_of_true (em _) trivial, Iff.rfl⟩
  · have childless : ∀ c, c ∉ old.childrenOf source := by
      intro c member
      obtain ⟨stored, isParent, other⟩ := free.rooted.listed source c member
      obtain ⟨q, isParent', directory, -⟩ := free.rooted.parents c stored other
      obtain rfl : source = q := Option.some.inj (isParent.symm.trans isParent')
      obtain ⟨entry, found, isDirectory'⟩ := getAsDirectory_isSome.mp directory
      rw [known] at found
      exact isDirectory (Option.some.inj found ▸ isDirectory')
    have started := Relocated.start free known isParent get fun q c => by
      split_ifs with atTarget atSource
      · rw [atTarget]
        exact iff_of_false (nothingYet c) (childless c)
      · rw [atSource, sourceChildren]
        exact iff_of_false (childless c) id
      · exact mem q c
    refine started.congr free.rooted fun rest stored => ?_
    have top : rest = [] := by
      by_contra some
      obtain ⟨c, member, -⟩ := (below rest stored).mp some
      exact childless c member
    exact ⟨iff_of_true top trivial, iff_of_false id fun some => some top⟩

theorem Free.renamePath (free : Free root old source target) : Rooted root (old.renamePath source target) := by
  cases known : old.get source with
  | none =>
    rw [renamePath_eq_self (.inl known)]
    exact free.rooted
  | some item =>
    cases place : old.parentDirectory target with
    | none =>
      rw [renamePath_eq_self (.inr place)]
      exact free.rooted
    | some parent =>
      obtain ⟨isParent, directory⟩ := parentDirectory_eq_some.mp place
      exact Relocated.rooted free known isParent directory (free.relocated known place)

/-- A rename to the same path under way: some entries are not listed for the moment. -/
structure Intact (old : FileTreeMapStore) (unlisted : Path → Prop) (s : FileTreeMapStore) : Prop where
  get : ∀ k, s.get k = old.get k
  mem : ∀ q c, c ∈ s.childrenOf q ↔ c ∈ old.childrenOf q ∧ ¬ unlisted c
  lists : ∀ q, ∀ c ∈ old.childrenOf q, (s.parentToChildMap.get? q).isSome

namespace Intact

variable {unlisted : Path → Prop} {path : Path}

theorem relabel (intact : Intact old unlisted s) (rooted : Rooted root old) (known : old.get path = some item)
    (isParent : old.parentDirectory path = some parent) : Intact old (fun c => unlisted c ∨ c = path)
      ((s.removeItemAndParent path).insertState path (item.setPath path)) := by
  obtain ⟨isParent, directory⟩ := parentDirectory_eq_some.mp isParent
  obtain ⟨entry, found, isDirectory⟩ := getAsDirectory_isSome.mp directory
  have place : parentDirectory { s with stateMap := s.stateMap.remove path } path = some parent := by
    refine parentDirectory_eq_some.mpr ⟨isParent, getAsDirectory_isSome.mpr ⟨entry, ?_, isDirectory⟩⟩
    refine (HashMap.get?_remove ..).trans ?_
    rw [if_neg (Path.ne_of_parent isParent)]
    exact (intact.get parent).trans found
  have same : item.setPath path = item := by
    rw [← rooted.keyed path item known]
    cases item <;> rfl
  unfold removeItemAndParent
  dsimp only
  rw [place, same]
  constructor
  case get =>
    intro k
    rw [get_insertState]
    split_ifs with here
    · rw [here, known]
    · refine (HashMap.get?_remove ..).trans ?_
      rw [if_neg here]
      exact intact.get k
  case mem =>
    intro q c
    dsimp only
    rw [childrenOf_insertState, childrenOf_setChildren, not_or, ← and_assoc, ← intact.mem]
    split_ifs with here
    · rw [HashSet.mem_remove, here]
      rfl
    · refine ⟨fun member => ⟨member, ?_⟩, And.left⟩
      rintro rfl
      exact here (Option.some.inj ((rooted.listed q c ((intact.mem q c).mp member).1).2.1.symm.trans isParent))
  case lists =>
    intro q c member
    show (HashMap.get? (HashMap.insert ..) q).isSome
    rw [HashMap.get?_insert]
    split_ifs
    · rfl
    · exact intact.lists q c member

theorem relist (intact : Intact old (fun c => unlisted c ∨ c = path) s) (rooted : Rooted root old)
    (member : path ∈ old.childrenOf parent) (isListed : ¬ unlisted path) {children : HashSet Path}
    (mem : ∀ c, c ∈ children ↔ c = path ∨ c ∈ s.childrenOf parent) : Intact old unlisted (s.setChildren parent children) := by
  have isParent := (rooted.listed parent path member).2.1
  constructor
  case get => exact intact.get
  case mem =>
    intro q c
    rw [childrenOf_setChildren]
    split_ifs with here
    · rw [mem, intact.mem, here]
      by_cases same : c = path
      · simp [same, member, isListed]
      · simp [same]
    · rw [intact.mem, not_or, ← and_assoc]
      refine ⟨And.left, fun kept => ⟨kept, ?_⟩⟩
      rintro rfl
      exact here (Option.some.inj ((rooted.listed q _ kept.1).2.1.symm.trans isParent))
  case lists =>
    intro q c member
    show (HashMap.get? (HashMap.insert ..) q).isSome
    rw [HashMap.get?_insert]
    split_ifs
    · rfl
    · exact intact.lists q c member

theorem moveChildren (intact : Intact old unlisted s) (path : Path) : Intact old unlisted (s.moveChildren path path) := by
  unfold FileTreeMapStore.moveChildren
  cases found : s.parentToChildMap.get? path with
  | none => exact intact
  | some children =>
    constructor
    case get => exact intact.get
    case mem =>
      intro q c
      dsimp only
      rw [childrenOf_setChildren, Minus.childrenOf_removeList, ← intact.mem]
      split_ifs with here
      · rw [here, childrenOf, found]
        rfl
      · rfl
    case lists =>
      intro q c member
      show (HashMap.get? (HashMap.insert ..) q).isSome
      rw [HashMap.get?_insert, HashMap.get?_remove]
      split_ifs
      · rfl
      · exact intact.lists q c member

theorem followed (intact : Intact old unlisted s) (rooted : Rooted root old) (inside : source <+: path) {fuel : ℕ}
    (step : ∀ s, ∀ c ∈ old.childrenOf path, Intact old unlisted s → source <+: c → ¬ unlisted c →
      Intact old unlisted (s.updatePathsUpTo source source fuel c)) :
    Intact old unlisted (s.followed source source fuel path path) := by
  refine List.foldlRecOn _ _ (intact.moveChildren path) fun t intact' c member => ?_
  obtain ⟨member, isListed⟩ := (intact.mem path c).mp member
  obtain ⟨name, rfl⟩ := Path.parent_eq_some_iff.mp (rooted.listed path c member).2.1
  exact step t _ member intact' (inside.trans (prefix_append _ _)) isListed

theorem updatePathsUpTo (rooted : Rooted root old) : ∀ fuel (s : FileTreeMapStore) path parent (unlisted : Path → Prop),
    Intact old unlisted s → source <+: path → path ∈ old.childrenOf parent → ¬ unlisted path →
    Intact old unlisted (s.updatePathsUpTo source source fuel path) := by
  intro fuel
  induction fuel with
  | zero => exact fun s path parent unlisted intact _ _ _ => intact
  | succ fuel ih =>
    intro s path parent unlisted intact inside member isListed
    obtain ⟨stored, isParent, other⟩ := rooted.listed parent path member
    obtain ⟨q, isParent', directory, -⟩ := rooted.parents path stored other
    obtain rfl : parent = q := Option.some.inj (isParent.symm.trans isParent')
    obtain ⟨item, known⟩ := Option.isSome_iff_exists.mp stored
    obtain ⟨names, rfl⟩ := inside
    rw [updatePathsUpTo_succ fuel ((intact.get _).trans known)]
    have relabelled := intact.relabel rooted known (parentDirectory_eq_some.mpr ⟨isParent, directory⟩)
    set s1 := (s.removeItemAndParent (source ++ names)).insertState (source ++ names) (item.setPath (source ++ names))
    have next : Intact old (fun c => unlisted c ∨ c = source ++ names) (s1.followed source source fuel (source ++ names) (source ++ names)) :=
      relabelled.followed rooted (prefix_append _ _) fun s c member intact inside isListed =>
        ih s c _ _ intact inside member isListed
    set s2 := s1.followed source source fuel (source ++ names) (source ++ names)
    obtain ⟨children, isList⟩ := Option.isSome_iff_exists.mp (next.lists parent _ member)
    have isChildren : s2.childrenOf parent = children := by
      unfold childrenOf
      rw [isList]
      rfl
    dsimp only
    rw [isParent, Option.bind_some, isList]
    dsimp only [Option.map_some]
    apply next.relist rooted member isListed
    intro c
    rw [HashSet.mem_insert, HashSet.mem_remove, ← isChildren]
    tauto

theorem rooted (intact : Intact old (fun _ => False) s) (rooted : Rooted root old) : Rooted root s := by
  have directory : ∀ q, (s.getAsDirectory q).isSome ↔ (old.getAsDirectory q).isSome := by
    intro q
    rw [getAsDirectory_isSome, getAsDirectory_isSome, intact.get]
  have mem : ∀ q c, c ∈ s.childrenOf q ↔ c ∈ old.childrenOf q := by
    intro q c
    rw [intact.mem, not_false_iff, and_true]
  constructor
  case keyed => exact fun k entry found => rooted.keyed k entry (intact.get k ▸ found)
  case parents =>
    intro k known other
    obtain ⟨q, isParent, isDirectory, member⟩ := rooted.parents k (intact.get k ▸ known) other
    exact ⟨q, isParent, (directory q).mpr isDirectory, (mem q k).mpr member⟩
  case listed =>
    intro q c member
    rw [intact.get]
    exact rooted.listed q c ((mem q c).mp member)

end Intact

theorem Rooted.renamePath_self (rooted : Rooted root s) (path : Path) : Intact s (fun _ => False) (s.renamePath path path) := by
  have start : Intact s (fun _ => False) s := ⟨fun _ => rfl, by simp, fun q c member => isSome_of_mem_childrenOf member⟩
  cases known : s.get path with
  | none =>
    rw [renamePath_eq_self (.inl known)]
    exact start
  | some item =>
    cases place : s.parentDirectory path with
    | none =>
      rw [renamePath_eq_self (.inr place)]
      exact start
    | some parent =>
      have relabelled : Intact s (fun _ => False) (s.relabelled path path parent item) := by
        have removed := start.relabel rooted known place
        obtain ⟨stored, isParent⟩ : (s.get path).isSome ∧ path ∈ s.childrenOf parent := by
          obtain ⟨isParent, directory⟩ := parentDirectory_eq_some.mp place
          have stored : (s.get path).isSome := by rw [known]; rfl
          exact ⟨stored, rooted.mem_childrenOf.mpr ⟨stored, isParent, rooted.ne_root directory isParent⟩⟩
        exact removed.relist rooted isParent id fun c => HashSet.mem_insert
      rw [renamePath_eq known place]
      split_ifs
      · exact relabelled.followed rooted prefix_rfl fun t c member intact inside isListed =>
          Intact.updatePathsUpTo rooted s.depth t c path _ intact inside member isListed
      · exact relabelled

/-- `rename_path` with what it returns. An entry that is there can be removed, so it has no third way to fail. -/
def renamePathReturning (self : FileTreeMapStore) (path newPath : Path) : FileTreeMapStore × Bool :=
  match self.get path, self.parentDirectory newPath with
  | some _, some _ => (self.renamePath path newPath, true)
  | _, _ => (self, false)

theorem Rooted.free (rooted : Rooted root s) (fresh : s.get target = none) (apart : ¬ source <+: target)
    (known : s.get source = some item) (place : s.parentDirectory target = some parent) : Free root s source target := by
  obtain ⟨isParent, directory⟩ := parentDirectory_eq_some.mp place
  obtain ⟨entry, found, -⟩ := getAsDirectory_isSome.mp directory
  obtain ⟨name, rfl⟩ := Path.parent_eq_some_iff.mp isParent
  have inside : root <+: parent ++ [name] := (rooted.below (by rw [found]; rfl)).trans (prefix_append _ _)
  have outside : ∀ k, (s.get k).isSome → ¬ parent ++ [name] <+: k := by
    intro k stored above
    have stored' := rooted.closed stored above inside
    rw [fresh] at stored'
    cases stored'
  exact ⟨rooted, ⟨apart, outside source (by rw [known]; rfl)⟩, fun k stored above => absurd above (outside k stored)⟩

/-- A rename to a free path moves exactly the subtree, and only where the new parent is a directory. -/
theorem Rooted.renamePath_moves (rooted : Rooted root s) (known : (s.get source).isSome) (fresh : s.get target = none)
    (apart : ¬ source <+: target) :
    ((s.renamePathReturning source target).2 = true ↔
      ∃ parent, target.parent = some parent ∧ (s.getAsDirectory parent).isSome) ∧
    ((s.renamePathReturning source target).2 = true →
      (∀ k entry, (s.renamePathReturning source target).1.get k = some entry ↔
        (∃ rest before, k = target ++ rest ∧ s.get (source ++ rest) = some before ∧ entry = before.setPath k) ∨
          ¬ source <+: k ∧ s.get k = some entry) ∧
      (∀ q c, c ∈ (s.renamePathReturning source target).1.childrenOf q ↔
        ((s.renamePathReturning source target).1.get c).isSome ∧ c.parent = some q ∧ c ≠ root) ∧
      Rooted root (s.renamePathReturning source target).1) ∧
    ((s.renamePathReturning source target).2 = false → (s.renamePathReturning source target).1 = s) := by
  obtain ⟨item, found⟩ := Option.isSome_iff_exists.mp known
  have directoryIff : (∃ parent, target.parent = some parent ∧ (s.getAsDirectory parent).isSome) ↔
      (s.parentDirectory target).isSome := by
    rw [Option.isSome_iff_exists]
    exact exists_congr fun parent => parentDirectory_eq_some.symm
  rw [directoryIff]
  unfold renamePathReturning
  rw [found]
  cases place : s.parentDirectory target with
  | none => simp
  | some parent =>
    have free := rooted.free fresh apart found place
    have moved := free.relocated found place
    have renamed : Rooted root (s.renamePath source target) := free.renamePath
    refine ⟨by simp, fun _ => ⟨fun k entry => ?_, fun q c => renamed.mem_childrenOf, renamed⟩, nofun⟩
    rw [moved.get]
    apply or_congr
    · exact exists_congr fun rest => by simp
    · constructor
      · rintro ⟨outside, -, stored⟩
        refine ⟨?_, stored⟩
        rintro ⟨rest, rfl⟩
        exact outside rest trivial rfl
      · rintro ⟨outside, stored⟩
        refine ⟨?_, ?_, stored⟩
        · rintro rest - rfl
          exact outside (prefix_append _ _)
        · rintro rfl
          rw [fresh] at stored
          cases stored

end Warp.RepoMetadata.FileTreeMapStore
