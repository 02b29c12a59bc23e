import Warp.RepoMetadata.FileTree

namespace Warp.RepoMetadata

variable {root path parent q c k : Path} {entry child : FileTreeEntryState} {s s' : FileTreeMapStore}

namespace FileTreeEntryState

@[simp]
theorem path_setPath (entry : FileTreeEntryState) (path : Path) : (entry.setPath path).path = path := by cases entry <;> rfl

@[simp]
theorem isDirectory_setPath (entry : FileTreeEntryState) (path : Path) :
    (entry.setPath path).isDirectory = entry.isDirectory := by cases entry <;> rfl

@[simp]
theorem path_setIgnored (entry : FileTreeEntryState) (ignored : Bool) : (entry.setIgnored ignored).path = entry.path := by
  cases entry <;> rfl

@[simp]
theorem isDirectory_setIgnored (entry : FileTreeEntryState) (ignored : Bool) :
    (entry.setIgnored ignored).isDirectory = entry.isDirectory := by cases entry <;> rfl

end FileTreeEntryState

namespace FileTreeMapStore

@[simp]
theorem get_insertState (s : FileTreeMapStore) (path k : Path) (entry : FileTreeEntryState) :
    (s.insertState path entry).get k = if k = path then some entry else s.get k := HashMap.get?_insert ..

@[simp]
theorem get_setChildren (s : FileTreeMapStore) (path k : Path) (children : HashSet Path) :
    (s.setChildren path children).get k = s.get k := rfl

@[simp]
theorem childrenOf_insertState (s : FileTreeMapStore) (path q : Path) (entry : FileTreeEntryState) :
    (s.insertState path entry).childrenOf q = s.childrenOf q := rfl

@[simp]
theorem childrenOf_setChildren (s : FileTreeMapStore) (path q : Path) (children : HashSet Path) :
    (s.setChildren path children).childrenOf q = if q = path then children else s.childrenOf q := by
  unfold childrenOf setChildren
  dsimp only
  rw [HashMap.get?_insert]
  split_ifs <;> rfl

theorem isSome_of_mem_childrenOf (member : c ∈ s.childrenOf q) : (s.parentToChildMap.get? q).isSome := by
  unfold childrenOf at member
  cases found : s.parentToChildMap.get? q with
  | none =>
    rw [found] at member
    exact absurd member (HashSet.notMem_empty c)
  | some children => rfl

theorem getAsDirectory_isSome : (s.getAsDirectory path).isSome ↔ ∃ entry, s.get path = some entry ∧ entry.isDirectory := by
  unfold getAsDirectory
  cases s.get path with
  | none => simp
  | some entry => simp [Option.filter, apply_ite]

theorem getAsDirectory_isNone : (s.getAsDirectory path).isNone ↔ ¬ (s.getAsDirectory path).isSome := by
  cases s.getAsDirectory path <;> simp

theorem parentDirectory_eq_some : s.parentDirectory path = some parent ↔
    path.parent = some parent ∧ (s.getAsDirectory parent).isSome := by
  unfold parentDirectory
  cases path.parent with
  | none => simp
  | some other =>
    cases found : s.getAsDirectory other with
    | none =>
      simp only [Option.bind_eq_bind, Option.bind_some, found, Option.bind_none, Option.some.injEq, false_iff, reduceCtorEq]
      rintro ⟨rfl, known⟩
      rw [found] at known
      cases known
    | some state =>
      simp only [Option.bind_eq_bind, Option.bind_some, found, Option.pure_def, Option.some.injEq]
      refine ⟨fun same => ⟨same, ?_⟩, And.left⟩
      rw [← same, found]
      rfl

/-- The shape of the tree in every reachable state. -/
structure Rooted (root : Path) (s : FileTreeMapStore) : Prop where
  keyed : ∀ k entry, s.get k = some entry → entry.path = k
  parents : ∀ k, (s.get k).isSome → k ≠ root →
    ∃ q, k.parent = some q ∧ (s.getAsDirectory q).isSome ∧ k ∈ s.childrenOf q
  listed : ∀ q, ∀ c ∈ s.childrenOf q, (s.get c).isSome ∧ c.parent = some q ∧ c ≠ root

namespace Rooted

theorem mem_childrenOf (rooted : Rooted root s) : c ∈ s.childrenOf q ↔ (s.get c).isSome ∧ c.parent = some q ∧ c ≠ root := by
  refine ⟨rooted.listed q c, fun ⟨known, isChild, other⟩ => ?_⟩
  obtain ⟨parent, isParent, -, member⟩ := rooted.parents c known other
  rw [isParent, Option.some_inj] at isChild
  exact isChild ▸ member

theorem below (rooted : Rooted root s) (known : (s.get k).isSome) : root <+: k := by
  induction k using List.reverseRecOn with
  | nil =>
    by_cases same : [] = root
    · rw [same]
    · obtain ⟨q, isParent, -⟩ := rooted.parents [] known same
      cases isParent
  | append_singleton init name ih =>
    by_cases same : init ++ [name] = root
    · rw [same]
    · obtain ⟨q, isParent, directory, -⟩ := rooted.parents _ known same
      obtain ⟨name', split⟩ := Path.parent_eq_some_iff.mp isParent
      obtain ⟨rfl, -⟩ := List.append_inj' split rfl
      obtain ⟨entry, found, -⟩ := getAsDirectory_isSome.mp directory
      exact (ih (by rw [found]; rfl)).trans (List.prefix_append _ _)

theorem closed (rooted : Rooted root s) (known : (s.get k).isSome) (above : path <+: k) (inside : root <+: path) :
    (s.get path).isSome := by
  induction k using List.reverseRecOn with
  | nil => rwa [List.prefix_nil.mp above]
  | append_singleton init name ih =>
    rcases List.prefix_concat_iff.mp above with same | above
    · exact same ▸ known
    · have other : init ++ [name] ≠ root := fun same => Path.not_concat_prefix (same ▸ inside.trans above)
      obtain ⟨q, isParent, directory, -⟩ := rooted.parents _ known other
      obtain ⟨name', split⟩ := Path.parent_eq_some_iff.mp isParent
      obtain ⟨rfl, -⟩ := List.append_inj' split rfl
      obtain ⟨entry, found, -⟩ := getAsDirectory_isSome.mp directory
      exact ih (by rw [found]; rfl) above

theorem ne_root (rooted : Rooted root s) (directory : (s.getAsDirectory q).isSome) (isParent : c.parent = some q) :
    c ≠ root := by
  rintro rfl
  obtain ⟨entry, found, -⟩ := getAsDirectory_isSome.mp directory
  have inside := rooted.below (by rw [found]; rfl : (s.get q).isSome)
  obtain ⟨name, rfl⟩ := Path.parent_eq_some_iff.mp isParent
  exact Path.not_concat_prefix inside

end Rooted

theorem insertChild_of_directory (directory : (s.getAsDirectory parent).isSome) :
    s.insertChild parent child = (s.insertState child.path child).setChildren parent
      ((s.childrenOf parent).insert child.path) := if_neg fun none => getAsDirectory_isNone.mp none directory

theorem insertChild_of_not_directory (directory : ¬ (s.getAsDirectory parent).isSome) : s.insertChild parent child = s :=
  if_pos (getAsDirectory_isNone.mpr directory)

theorem getAsDirectory_insertState_isSome :
    ((s.insertState path entry).getAsDirectory q).isSome ↔
      if q = path then entry.isDirectory = true else (s.getAsDirectory q).isSome := by
  rw [getAsDirectory_isSome, get_insertState]
  by_cases same : q = path
  · simp [same]
  · rw [if_neg same, if_neg same, getAsDirectory_isSome]

theorem Rooted.insert (rooted : Rooted root s) {children : HashSet Path} (directory : (s.getAsDirectory parent).isSome)
    (named : child.path.parent = some parent) (fits : child.isDirectory ∨ ∀ k, (s.get k).isSome → child.path <+: k → k = child.path)
    (mem : ∀ c, c ∈ children ↔ c = child.path ∨ c ∈ s.childrenOf parent) :
    Rooted root ((s.insertState child.path child).setChildren parent children) := by
  have other : child.path ≠ root := rooted.ne_root directory named
  have apart : parent ≠ child.path := Path.ne_of_parent named
  -- What was a directory with an entry is a directory still.
  have stays : ∀ q k, (s.get k).isSome → k.parent = some q → (s.getAsDirectory q).isSome →
      (((s.insertState child.path child).setChildren parent children).getAsDirectory q).isSome := by
    intro q k known isParent directory
    refine getAsDirectory_insertState_isSome.mpr ?_
    by_cases same : q = child.path
    · rw [if_pos same]
      refine fits.resolve_right fun alone => Path.ne_of_parent isParent ?_
      obtain ⟨name, rfl⟩ := Path.parent_eq_some_iff.mp isParent
      exact same.trans (alone _ known (same ▸ List.prefix_append _ _)).symm
    · rwa [if_neg same]
  constructor
  case keyed =>
    intro k entry found
    rw [get_setChildren, get_insertState] at found
    by_cases same : k = child.path
    · rw [if_pos same, Option.some_inj] at found
      rw [← found, same]
    · rw [if_neg same] at found
      exact rooted.keyed k entry found
  case parents =>
    intro k known notRoot
    rw [get_setChildren, get_insertState] at known
    by_cases same : k = child.path
    · refine ⟨parent, same ▸ named, ?_, ?_⟩
      · refine getAsDirectory_insertState_isSome.mpr ?_
        rwa [if_neg apart]
      · rw [childrenOf_setChildren, if_pos rfl, mem]
        exact .inl same
    · rw [if_neg same] at known
      obtain ⟨q, isParent, directory', member⟩ := rooted.parents k known notRoot
      refine ⟨q, isParent, stays q k known isParent directory', ?_⟩
      rw [childrenOf_setChildren, childrenOf_insertState]
      by_cases here : q = parent
      · rw [if_pos here, mem]
        exact .inr (here ▸ member)
      · rwa [if_neg here]
  case listed =>
    intro q c member
    rw [childrenOf_setChildren, childrenOf_insertState] at member
    have old : c ∈ s.childrenOf q → (((s.insertState child.path child).setChildren parent children).get c).isSome ∧
        c.parent = some q ∧ c ≠ root := by
      intro member
      obtain ⟨known, isParent, notRoot⟩ := rooted.listed q c member
      refine ⟨?_, isParent, notRoot⟩
      rw [get_setChildren, get_insertState]
      split_ifs
      · rfl
      · exact known
    by_cases here : q = parent
    · rw [if_pos here, mem] at member
      rcases member with rfl | member
      · refine ⟨?_, here ▸ named, other⟩
        simp
      · exact old (here ▸ member)
    · rw [if_neg here] at member
      exact old member

theorem Rooted.insertChild (rooted : Rooted root s) (named : child.path.parent = some parent)
    (fits : child.isDirectory ∨ ∀ k, (s.get k).isSome → child.path <+: k → k = child.path) :
    Rooted root (s.insertChild parent child) := by
  by_cases directory : (s.getAsDirectory parent).isSome
  · rw [insertChild_of_directory directory]
    exact rooted.insert directory named fits fun c => HashSet.mem_insert
  · rwa [insertChild_of_not_directory directory]

theorem get_insertChild (directory : (s.getAsDirectory parent).isSome) (k : Path) :
    (s.insertChild parent child).get k = if k = child.path then some child else s.get k := by
  rw [insertChild_of_directory directory, get_setChildren, get_insertState]

structure Minus (old : FileTreeMapStore) (gone : Path → Prop) (s : FileTreeMapStore) : Prop where
  absent : ∀ k, gone k → s.get k = none
  same : ∀ k, ¬ gone k → s.get k = old.get k
  mem : ∀ q c, c ∈ s.childrenOf q ↔ c ∈ old.childrenOf q ∧ ¬ gone q ∧ ¬ gone c

namespace Minus

variable {old : FileTreeMapStore} {gone gone' : Path → Prop}

theorem refl (s : FileTreeMapStore) : Minus s (fun _ => False) s := by
  constructor <;> simp

theorem congr (minus : Minus old gone s) (rooted : Rooted root old)
    (agree : ∀ k, (old.get k).isSome → (gone k ↔ gone' k)) : Minus old gone' s := by
  have known : ∀ {q c}, c ∈ old.childrenOf q → (gone q ↔ gone' q) ∧ (gone c ↔ gone' c) := by
    intro q c member
    obtain ⟨known, isParent, other⟩ := rooted.listed q c member
    obtain ⟨parent, isParent', directory, -⟩ := rooted.parents c known other
    obtain ⟨entry, found, -⟩ := getAsDirectory_isSome.mp directory
    rw [isParent, Option.some_inj] at isParent'
    exact ⟨agree q (by rw [isParent', found]; rfl), agree c known⟩
  constructor
  case absent =>
    intro k isGone
    cases found : old.get k with
    | some entry => exact minus.absent k ((agree k (by rw [found]; rfl)).mpr isGone)
    | none =>
      by_cases before : gone k
      · exact minus.absent k before
      · rw [minus.same k before, found]
  case same =>
    intro k stays
    cases found : old.get k with
    | some entry => exact (minus.same k fun before => stays ((agree k (by rw [found]; rfl)).mp before)).trans found
    | none =>
      by_cases before : gone k
      · exact minus.absent k before
      · rw [minus.same k before, found]
  case mem =>
    intro q c
    rw [minus.mem]
    refine and_congr_right fun member => ?_
    rw [(known member).1, (known member).2]

theorem getAsDirectory (minus : Minus old gone s) :
    (s.getAsDirectory q).isSome ↔ (old.getAsDirectory q).isSome ∧ ¬ gone q := by
  rw [getAsDirectory_isSome, getAsDirectory_isSome]
  by_cases isGone : gone q
  · simp [minus.absent q isGone, isGone]
  · rw [minus.same q isGone]
    simp [isGone]

theorem rooted (minus : Minus old gone s) (rooted : Rooted root old)
    (closed : ∀ q k, (old.get k).isSome → k.parent = some q → k ≠ root → gone q → gone k) : Rooted root s := by
  have known : ∀ {k}, (s.get k).isSome → (old.get k).isSome ∧ ¬ gone k := by
    intro k known
    by_cases isGone : gone k
    · rw [minus.absent k isGone] at known
      cases known
    · rw [minus.same k isGone] at known
      exact ⟨known, isGone⟩
  constructor
  case keyed =>
    intro k entry found
    rw [minus.same k (known (by rw [found]; rfl)).2] at found
    exact rooted.keyed k entry found
  case parents =>
    intro k isKey other
    obtain ⟨isOld, stays⟩ := known isKey
    obtain ⟨q, isParent, directory, member⟩ := rooted.parents k isOld other
    have above : ¬ gone q := fun isGone => stays (closed q k isOld isParent other isGone)
    exact ⟨q, isParent, minus.getAsDirectory.mpr ⟨directory, above⟩, (minus.mem q k).mpr ⟨member, above, stays⟩⟩
  case listed =>
    intro q c member
    obtain ⟨member, -, stays⟩ := (minus.mem q c).mp member
    obtain ⟨isKey, isParent, other⟩ := rooted.listed q c member
    exact ⟨minus.same c stays ▸ isKey, isParent, other⟩

theorem removeItemAndParent (minus : Minus old gone s) (rooted : Rooted root old) (path : Path) :
    (∀ k, (s.removeItemAndParent path).get k = if k = path then none else s.get k) ∧
      ∀ q c, c ∈ (s.removeItemAndParent path).childrenOf q ↔ c ∈ s.childrenOf q ∧ c ≠ path := by
  set t : FileTreeMapStore := { s with stateMap := s.stateMap.remove path } with isRest
  have get : ∀ k, t.get k = if k = path then none else s.get k := fun k => HashMap.get?_remove ..
  have children : ∀ q, t.childrenOf q = s.childrenOf q := fun _ => rfl
  -- The item is listed by its parent only, and only while that is a directory.
  have listed : ∀ q, path ∈ s.childrenOf q → t.parentDirectory path = some q := by
    intro q member
    obtain ⟨member, stays, -⟩ := (minus.mem q path).mp member
    obtain ⟨known, isParent, other⟩ := rooted.listed q path member
    obtain ⟨q', isParent', directory, -⟩ := rooted.parents path known other
    obtain rfl : q = q' := Option.some.inj (isParent.symm.trans isParent')
    refine parentDirectory_eq_some.mpr ⟨isParent, ?_⟩
    rw [getAsDirectory_isSome, get, if_neg (Path.ne_of_parent isParent), ← getAsDirectory_isSome]
    exact minus.getAsDirectory.mpr ⟨directory, stays⟩
  unfold FileTreeMapStore.removeItemAndParent
  dsimp only
  rw [← isRest]
  cases isParent : t.parentDirectory path with
  | none =>
    refine ⟨get, fun q c => ⟨fun member => ⟨member, ?_⟩, And.left⟩⟩
    rintro rfl
    rw [listed q member] at isParent
    cases isParent
  | some parent =>
    refine ⟨get, fun q c => ?_⟩
    dsimp only
    rw [childrenOf_setChildren, children, children]
    by_cases here : q = parent
    · rw [if_pos here, HashSet.mem_remove, here]
    · rw [if_neg here]
      refine ⟨fun member => ⟨member, ?_⟩, And.left⟩
      rintro rfl
      rw [listed q member] at isParent
      exact here (Option.some.inj isParent)

theorem childrenOf_removeList (s : FileTreeMapStore) (path q : Path) :
    childrenOf { s with parentToChildMap := s.parentToChildMap.remove path } q =
      if q = path then .empty else s.childrenOf q := by
  unfold childrenOf
  dsimp only
  rw [HashMap.get?_remove]
  split_ifs <;> rfl

theorem removeUpTo (rooted : Rooted root old) : ∀ fuel (s : FileTreeMapStore) path (gone : Path → Prop), Minus old gone s →
    root <+: path → (∀ k, path <+: k → ¬ gone k) →
    (∀ k, (old.get k).isSome → path <+: k → k.length < fuel + path.length) →
    Minus old (fun k => gone k ∨ path <+: k) (s.removeUpTo fuel path) := by
  intro fuel
  induction fuel with
  | zero =>
    intro s path gone minus _ _ enough
    apply minus.congr rooted
    intro k known
    have above : ¬ path <+: k := by
      intro below
      have := below.length_le
      have := enough k known below
      omega
    simp [above]
  | succ fuel ih =>
    intro s path gone minus inside apart enough
    obtain ⟨get, mem⟩ := minus.removeItemAndParent rooted path
    unfold FileTreeMapStore.removeUpTo
    dsimp only
    set t := s.removeItemAndParent path with isRemoved
    have stays := apart path List.prefix_rfl
    have removed : Minus old (fun k => gone k ∨ k = path) { t with parentToChildMap := t.parentToChildMap.remove path } := by
      constructor
      case absent =>
        intro k isGone
        show t.get k = none
        rw [get]
        split_ifs with same
        · rfl
        · exact minus.absent k (isGone.resolve_right same)
      case same =>
        intro k stays
        show t.get k = old.get k
        rw [get, if_neg fun same => stays (.inr same)]
        exact minus.same k fun isGone => stays (.inl isGone)
      case mem =>
        intro q c
        rw [childrenOf_removeList]
        split_ifs with same
        · simp [same]
        · rw [mem, minus.mem]
          simp [same]
          tauto
    have children : ∀ c, c ∈ (t.childrenOf path).elems ↔ c ∈ old.childrenOf path := by
      intro c
      rw [HashSet.mem_elems, mem, minus.mem]
      refine ⟨fun member => member.1.1, fun member => ?_⟩
      obtain ⟨name, rfl⟩ := Path.parent_eq_some_iff.mp (rooted.listed path c member).2.1
      exact ⟨⟨member, stays, apart _ (List.prefix_append _ _)⟩, by simp⟩
    have folded : ∀ (cs : List Path) (u : FileTreeMapStore) (gone' : Path → Prop), cs.Nodup →
        (∀ c ∈ cs, c ∈ old.childrenOf path) → Minus old gone' u → (∀ c ∈ cs, ∀ k, c <+: k → ¬ gone' k) →
        Minus old (fun k => gone' k ∨ ∃ c ∈ cs, c <+: k) (cs.foldl (fun u c => u.removeUpTo fuel c) u) := by
      intro cs
      induction cs with
      | nil =>
        intro u gone' _ _ minus _
        simpa using minus
      | cons c cs inner =>
        intro u gone' nodup listed minus apart
        obtain ⟨name, split⟩ := Path.parent_eq_some_iff.mp (rooted.listed path c (listed c List.mem_cons_self)).2.1
        have first := ih u c gone' minus (by rw [split]; exact inside.trans (List.prefix_append _ _))
          (apart c List.mem_cons_self) fun k known below => by
            have := enough k known ((split ▸ List.prefix_append _ _ : path <+: c).trans below)
            rw [split, List.length_append, List.length_singleton]
            omega
        have rest := inner _ _ (List.nodup_cons.mp nodup).2 (fun c member => listed c (List.mem_cons_of_mem _ member)) first
          fun c' member k below => by
            rintro (isGone | below')
            · exact apart c' (List.mem_cons_of_mem _ member) k below isGone
            · obtain ⟨name', split'⟩ :=
                Path.parent_eq_some_iff.mp (rooted.listed path c' (listed c' (List.mem_cons_of_mem _ member))).2.1
              have same := Path.prefix_unique below' below (by rw [split, split']; simp)
              exact (List.nodup_cons.mp nodup).1 (same ▸ member)
        refine rest.congr rooted fun k _ => ?_
        rw [or_assoc, List.exists_mem_cons_iff]
    have all := folded (t.childrenOf path).elems _ _ (t.childrenOf path).distinct (fun c member => (children c).mp member)
      removed fun c member k below => by
        obtain ⟨name, rfl⟩ := Path.parent_eq_some_iff.mp (rooted.listed path c ((children c).mp member)).2.1
        rintro (isGone | rfl)
        · exact apart k ((List.prefix_append _ _).trans below) isGone
        · exact Path.not_concat_prefix below
    refine all.congr rooted fun k known => ?_
    rw [or_assoc]
    apply or_congr_right
    constructor
    · rintro (rfl | ⟨c, member, below⟩)
      · exact List.prefix_rfl
      · obtain ⟨name, rfl⟩ := Path.parent_eq_some_iff.mp (rooted.listed path c ((children c).mp member)).2.1
        exact (List.prefix_append _ _).trans below
    · rintro ⟨rest, rfl⟩
      cases rest with
      | nil => exact .inl (List.append_nil _)
      | cons name rest =>
        have below : path ++ [name] <+: path ++ name :: rest := ⟨rest, by simp⟩
        have inside' : root <+: path ++ [name] := inside.trans (List.prefix_append _ _)
        refine .inr ⟨path ++ [name], (children _).mpr (rooted.mem_childrenOf.mpr ⟨rooted.closed known below inside', ?_, ?_⟩), below⟩
        · exact Path.parent_eq_some_iff.mpr ⟨name, rfl⟩
        · exact fun same => Path.not_concat_prefix (same ▸ inside)

end Minus

theorem length_lt_depth (known : (s.get k).isSome) : k.length < s.depth := by
  unfold depth
  have member : k.length ∈ s.stateMap.keys.map List.length := List.mem_map_of_mem (HashMap.get?_isSome_iff.mp known)
  have := List.le_sum_of_mem member
  omega

theorem Rooted.remove_minus (rooted : Rooted root s) (path : Path) :
    Minus s (fun k => root <+: path ∧ path <+: k) (s.remove path) := by
  by_cases inside : root <+: path
  · refine (Minus.removeUpTo rooted s.depth s path _ (.refl s) inside (by simp) fun k known _ => ?_).congr rooted ?_
    · have := length_lt_depth known
      omega
    · simp [inside]
  · have isDepth : s.depth = (s.stateMap.keys.map List.length).sum + s.parentToChildMap.entries.length + 1 := rfl
    obtain ⟨get, mem⟩ := (Minus.refl s).removeItemAndParent rooted path
    have outside : s.get path = none := by
      cases found : s.get path with
      | none => rfl
      | some entry => exact absurd (rooted.below (by rw [found]; rfl)) inside
    have childless : ∀ c, c ∉ (s.removeItemAndParent path).childrenOf path := by
      intro c member
      obtain ⟨known, isParent, other⟩ := rooted.listed path c ((mem path c).mp member).1
      obtain ⟨q, isParent', directory, -⟩ := rooted.parents c known other
      obtain rfl : path = q := Option.some.inj (isParent.symm.trans isParent')
      obtain ⟨entry, found, -⟩ := getAsDirectory_isSome.mp directory
      rw [outside] at found
      cases found
    have nothing : ((s.removeItemAndParent path).childrenOf path).elems = [] :=
      List.eq_nil_iff_forall_not_mem.mpr childless
    unfold remove
    rw [isDepth, removeUpTo]
    rw [nothing, List.foldl_nil]
    constructor
    case absent => exact fun k gone => absurd gone.1 inside
    case same =>
      intro k _
      show (s.removeItemAndParent path).get k = s.get k
      rw [get]
      split_ifs with same
      · rw [same, outside]
      · rfl
    case mem =>
      intro q c
      rw [Minus.childrenOf_removeList]
      split_ifs with same
      · rw [same]
        refine ⟨fun member => absurd member (HashSet.notMem_empty c), fun member => absurd ?_ (childless c)⟩
        refine (mem path c).mpr ⟨member.1, ?_⟩
        rintro rfl
        have := (rooted.listed c c member.1).2.1
        exact Path.ne_of_parent this rfl
      · rw [mem]
        simp only [inside, false_and, not_false_eq_true, and_true]
        refine ⟨And.left, fun member => ⟨member, ?_⟩⟩
        rintro rfl
        have := (rooted.listed q c member).1
        rw [outside] at this
        cases this

theorem Rooted.remove (rooted : Rooted root s) (path : Path) : Rooted root (s.remove path) := by
  apply (rooted.remove_minus path).rooted rooted
  rintro q k - isParent - ⟨inside, below⟩
  obtain ⟨name, rfl⟩ := Path.parent_eq_some_iff.mp isParent
  exact ⟨inside, below.trans (List.prefix_append _ _)⟩

theorem Rooted.get_remove (rooted : Rooted root s) (path k : Path) :
    (s.remove path).get k = if root <+: path ∧ path <+: k then none else s.get k := by
  split_ifs with gone
  · exact (rooted.remove_minus path).absent k gone
  · exact (rooted.remove_minus path).same k gone

theorem Rooted.replace (rooted : Rooted root s) {existing : FileTreeEntryState} (known : s.get path = some existing)
    (named : entry.path = path) (same : entry.isDirectory = existing.isDirectory) :
    Rooted root (s.insertState path entry) := by
  have isSome : ∀ k, ((s.insertState path entry).get k).isSome ↔ (s.get k).isSome := by
    intro k
    rw [get_insertState]
    split_ifs with here
    · simp [here, known]
    · rfl
  have directory : ∀ q, ((s.insertState path entry).getAsDirectory q).isSome ↔ (s.getAsDirectory q).isSome := by
    intro q
    rw [getAsDirectory_insertState_isSome]
    split_ifs with here
    · rw [getAsDirectory_isSome, here, known, same]
      simp
    · rfl
  constructor
  case keyed =>
    intro k other found
    rw [get_insertState] at found
    split_ifs at found with here
    · rw [← Option.some.inj found, named, here]
    · exact rooted.keyed k other found
  case parents =>
    intro k isKey other
    obtain ⟨q, isParent, isDirectory, member⟩ := rooted.parents k ((isSome k).mp isKey) other
    exact ⟨q, isParent, (directory q).mpr isDirectory, member⟩
  case listed =>
    intro q c member
    obtain ⟨isKey, isParent, other⟩ := rooted.listed q c member
    exact ⟨(isSome c).mpr isKey, isParent, other⟩

end FileTreeMapStore

end Warp.RepoMetadata
