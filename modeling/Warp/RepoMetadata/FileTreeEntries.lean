import Warp.RepoMetadata.FileTreeShape

namespace Warp.RepoMetadata

open List Option

variable {root path parent q c k : Path} {entry : Entry} {entries : List Entry} {state : FileTreeEntryState}
  {s s' : FileTreeMapStore}

namespace Entry

mutual

/-- The states of the entry and of all below it, directories before their children. -/
def states : Entry → List FileTreeEntryState
  | .file path extension ignored => [.file path extension ignored]
  | .directory path children ignored loaded => .directory path ignored loaded :: allStates children

def allStates : List Entry → List FileTreeEntryState
  | [] => []
  | entry :: entries => entry.states ++ allStates entries

end

mutual

def Named : Entry → Prop
  | .file .. => True
  | .directory path children _ _ => AllNamed path children

def AllNamed (parent : Path) : List Entry → Prop
  | [] => True
  | entry :: entries =>
    (entry.path.parent = some parent ∧ entry.Named) ∧ entry.path ∉ entries.map Entry.path ∧ AllNamed parent entries

end

mutual

theorem Named.below : ∀ {entry : Entry}, entry.Named → ∀ state ∈ entry.states, entry.path <+: state.path
  | .file .., _, state, member => by
    rw [states, mem_singleton] at member
    rw [member]
    exact prefix_rfl
  | .directory path children ignored loaded, named, state, member => by
    rw [states, mem_cons] at member
    rcases member with rfl | member
    · exact prefix_rfl
    · obtain ⟨child, among, member⟩ := AllNamed.below named state member
      obtain ⟨name, split⟩ := Path.parent_eq_some_iff.mp among.2.1
      exact (split ▸ prefix_append _ _ : path <+: child.path).trans member

theorem AllNamed.below : ∀ {entries : List Entry} {parent : Path}, AllNamed parent entries → ∀ state ∈ allStates entries,
    ∃ entry, (entry ∈ entries ∧ entry.path.parent = some parent ∧ state ∈ entry.states) ∧ entry.path <+: state.path
  | [], _, _, _, member => by cases member
  | entry :: entries, parent, named, state, member => by
    rw [allStates, mem_append] at member
    rcases member with member | member
    · exact ⟨entry, ⟨mem_cons_self, named.1.1, member⟩, Named.below named.1.2 state member⟩
    · obtain ⟨other, ⟨among, isParent, member⟩, below⟩ := AllNamed.below named.2.2 state member
      exact ⟨other, ⟨mem_cons_of_mem _ among, isParent, member⟩, below⟩

end

theorem state_mem_states (entry : Entry) : entry.state ∈ entry.states := by cases entry <;> simp [state, states]

@[simp]
theorem path_state (entry : Entry) : entry.state.path = entry.path := by cases entry <;> rfl

end Entry

namespace FileTreeMapStore

def Listing (s : FileTreeMapStore) : Prop := ∀ q, (s.parentToChildMap.get? q).isSome → (s.get q).isSome

structure Appended (root : Path) (states : List FileTreeEntryState) (s s' : FileTreeMapStore) : Prop where
  rooted : Rooted root s'
  listing : Listing s'
  get : ∀ k state, s'.get k = some state ↔ (state ∈ states ∧ state.path = k) ∨ s.get k = some state

variable {t : FileTreeMapStore}

theorem Appended.trans {states states' : List FileTreeEntryState} (first : Appended root states s t)
    (second : Appended root states' t s') : Appended root (states ++ states') s s' where
  rooted := second.rooted
  listing := second.listing
  get k state := by
    rw [second.get, first.get, mem_append]
    tauto

theorem Rooted.appendState (rooted : Rooted root s) (listing : Listing s) (directory : (s.getAsDirectory parent).isSome)
    (named : state.path.parent = some parent) (fresh : ∀ k, state.path <+: k → s.get k = none) :
    Appended root [state] s (s.insertChild parent state) := by
  have fits : ∀ k, (s.get k).isSome → state.path <+: k → k = state.path := by
    intro k known below
    rw [fresh k below] at known
    cases known
  constructor
  case rooted => exact rooted.insertChild named (.inr fits)
  case listing =>
    intro q isList
    rw [get_insertChild directory]
    split_ifs with same
    · rfl
    · rw [insertChild_of_directory directory] at isList
      simp only [setChildren, insertState, HashMap.get?_insert] at isList
      split_ifs at isList with here
      · obtain ⟨entry, found, -⟩ := getAsDirectory_isSome.mp directory
        rw [here, found]
        rfl
      · exact listing q isList
  case get =>
    intro k other
    rw [get_insertChild directory, mem_singleton]
    split_ifs with same
    · rw [some_inj, same, fresh _ prefix_rfl]
      constructor
      · rintro rfl
        exact .inl ⟨rfl, rfl⟩
      · rintro (⟨rfl, -⟩ | absurd)
        · rfl
        · cases absurd
    · refine ⟨.inr, ?_⟩
      rintro (⟨rfl, rfl⟩ | found)
      · exact absurd rfl same
      · exact found

mutual

theorem appendEntry_appended : ∀ (entry : Entry) {s : FileTreeMapStore} {parent : Path}, Rooted root s → Listing s →
    (s.getAsDirectory parent).isSome → entry.path.parent = some parent → entry.Named →
    (∀ k, entry.path <+: k → s.get k = none) → Appended root entry.states s (s.appendEntry parent entry)
  | .file path extension ignored, s, parent, rooted, listing, directory, isParent, _, fresh =>
    rooted.appendState listing directory isParent fresh
  | .directory path children ignored loaded, s, parent, rooted, listing, directory, isParent, named, fresh => by
    have first : Appended root [.directory path ignored loaded] s (s.insertChild parent (.directory path ignored loaded)) :=
      rooted.appendState listing directory isParent fresh
    have isDirectory : ((s.insertChild parent (.directory path ignored loaded)).getAsDirectory path).isSome := by
      rw [getAsDirectory_isSome]
      exact ⟨_, (first.get path _).mpr (.inl ⟨mem_singleton_self _, rfl⟩), rfl⟩
    have rest := appendEntries_appended children first.rooted first.listing isDirectory named ?_
    · exact first.trans rest
    · intro child among isParent k below
      obtain ⟨name, split⟩ := Path.parent_eq_some_iff.mp isParent
      have inside : path <+: k := (split ▸ prefix_append _ _ : path <+: child.path).trans below
      rw [get_insertChild directory, if_neg, fresh k inside]
      rintro rfl
      exact Path.not_concat_prefix (split ▸ below)

theorem appendEntries_appended : ∀ (entries : List Entry) {s : FileTreeMapStore} {parent : Path}, Rooted root s → Listing s →
    (s.getAsDirectory parent).isSome → Entry.AllNamed parent entries →
    (∀ entry ∈ entries, entry.path.parent = some parent → ∀ k, entry.path <+: k → s.get k = none) →
    Appended root (Entry.allStates entries) s (s.appendEntries parent entries)
  | [], s, parent, rooted, listing, _, _, _ => ⟨rooted, listing, by simp [Entry.allStates, appendEntries]⟩
  | entry :: entries, s, parent, rooted, listing, directory, named, fresh => by
    have first := appendEntry_appended entry rooted listing directory named.1.1 named.1.2
      (fresh entry mem_cons_self named.1.1)
    have isDirectory : ((s.appendEntry parent entry).getAsDirectory parent).isSome := by
      obtain ⟨state, found, isDirectory⟩ := getAsDirectory_isSome.mp directory
      exact getAsDirectory_isSome.mpr ⟨state, (first.get parent state).mpr (.inr found), isDirectory⟩
    refine first.trans (appendEntries_appended entries first.rooted first.listing isDirectory named.2.2 ?_)
    intro other among isParent k below
    cases found : (s.appendEntry parent entry).get k with
    | none => rfl
    | some state =>
      exfalso
      rcases (first.get k state).mp found with ⟨member, rfl⟩ | before
      · have below' := named.1.2.below state member
        obtain ⟨name, split⟩ := Path.parent_eq_some_iff.mp isParent
        obtain ⟨name', split'⟩ := Path.parent_eq_some_iff.mp named.1.1
        have same := Path.prefix_unique below below' (by rw [split, split']; simp)
        exact named.2.1 (same ▸ List.mem_map_of_mem among)
      · rw [fresh other (mem_cons_of_mem _ among) isParent k below] at before
        cases before

end

theorem get_newForEntry (state : FileTreeEntryState) (k : Path) :
    (newForEntry state).get k = if k = state.path then some state else none := HashMap.get?_insert ..

theorem newForEntry_rooted (state : FileTreeEntryState) : Rooted state.path (newForEntry state) := by
  constructor
  case keyed =>
    intro k other found
    rw [get_newForEntry] at found
    split_ifs at found with same
    · rw [← Option.some.inj found, same]
  case parents =>
    intro k known other
    rw [get_newForEntry, if_neg other] at known
    cases known
  case listed => exact fun q c member => absurd member (HashSet.notMem_empty c)

theorem ofEntry_appended (named : entry.Named) : Appended entry.path entry.states ⟨.empty, .empty⟩ (ofEntry entry) := by
  have start : Appended entry.path [entry.state] ⟨.empty, .empty⟩ (newForEntry entry.state) := by
    refine ⟨entry.path_state ▸ newForEntry_rooted entry.state, ?_, fun k state => ?_⟩
    · exact fun q isList => by cases isList
    rw [get_newForEntry, mem_singleton]
    have nothing : get ⟨.empty, .empty⟩ k ≠ some state := by rintro ⟨⟩
    split_ifs with same
    · rw [some_inj]
      constructor
      · rintro rfl
        exact .inl ⟨rfl, same.symm⟩
      · rintro (⟨rfl, -⟩ | absurd)
        · rfl
        · exact (nothing absurd).elim
    · simp only [reduceCtorEq, false_iff, not_or, not_and]
      exact ⟨fun isState isPath => same (isState ▸ isPath.symm), nothing⟩
  cases entry with
  | file path extension ignored => exact start
  | directory path children ignored loaded =>
    have isDirectory : ((newForEntry (.directory path ignored loaded)).getAsDirectory path).isSome := by
      rw [getAsDirectory_isSome]
      exact ⟨_, (start.get path _).mpr (.inl ⟨mem_singleton_self _, rfl⟩), rfl⟩
    refine start.trans (appendEntries_appended children start.rooted start.listing isDirectory named ?_)
    intro child among isParent k below
    obtain ⟨name, split⟩ := Path.parent_eq_some_iff.mp isParent
    refine (get_newForEntry _ _).trans (if_neg ?_)
    rintro rfl
    exact Path.not_concat_prefix (split ▸ below)

def extend (s t : FileTreeMapStore) : FileTreeMapStore :=
  ⟨s.stateMap.insertAll t.stateMap, s.parentToChildMap.insertAll t.parentToChildMap⟩

theorem get_extend (s t : FileTreeMapStore) (k : Path) : (s.extend t).get k = (t.get k).or (s.get k) :=
  HashMap.get?_insertAll ..

theorem mem_childrenOf_extend : c ∈ (s.extend t).childrenOf q ↔
    if (t.parentToChildMap.get? q).isSome then c ∈ t.childrenOf q else c ∈ s.childrenOf q := by
  unfold childrenOf extend
  dsimp only
  rw [HashMap.get?_insertAll]
  cases t.parentToChildMap.get? q <;> simp

section Extend

variable {t : FileTreeMapStore} (rooted : Rooted root s) (other : Rooted path t) (listing : Listing t) (inside : root <+: path)
  (again : ∀ k, (s.get k).isSome → path <+: k → (t.get k).isSome)

include rooted other in
theorem keyed_extend : ∀ k state, (s.extend t).get k = some state → state.path = k := by
  intro k state found
  rw [get_extend] at found
  cases inOther : t.get k with
  | some state' =>
    rw [inOther] at found
    exact Option.some.inj found ▸ other.keyed k state' inOther
  | none =>
    rw [inOther] at found
    exact rooted.keyed k state found

include rooted other listing again in
theorem parents_extend : ∀ k, ((s.extend t).get k).isSome → k ≠ root → k ≠ path →
    ∃ q, k.parent = some q ∧ ((s.extend t).getAsDirectory q).isSome ∧ k ∈ (s.extend t).childrenOf q := by
  intro k known notRoot notPath
  rw [get_extend] at known
  cases inOther : t.get k with
  | some state =>
    obtain ⟨q, isParent, directory, member⟩ := other.parents k (by rw [inOther]; rfl) notPath
    obtain ⟨state', found, isDirectory⟩ := getAsDirectory_isSome.mp directory
    refine ⟨q, isParent, getAsDirectory_isSome.mpr ⟨state', ?_, isDirectory⟩, ?_⟩
    · rw [get_extend, found]
      rfl
    · rw [mem_childrenOf_extend, if_pos (isSome_of_mem_childrenOf member)]
      exact member
  | none =>
    rw [inOther, none_or] at known
    obtain ⟨q, isParent, directory, member⟩ := rooted.parents k known notRoot
    have outside : t.get q = none := by
      cases found : t.get q with
      | none => rfl
      | some state =>
        obtain ⟨name, rfl⟩ := Path.parent_eq_some_iff.mp isParent
        have below := (other.below (by rw [found]; rfl)).trans (prefix_append q [name])
        have := again _ known below
        rw [inOther] at this
        cases this
    obtain ⟨state', found, isDirectory⟩ := getAsDirectory_isSome.mp directory
    refine ⟨q, isParent, getAsDirectory_isSome.mpr ⟨state', ?_, isDirectory⟩, ?_⟩
    · rw [get_extend, outside, found]
      rfl
    · rw [mem_childrenOf_extend, if_neg]
      · exact member
      · intro isList
        have := listing q isList
        rw [outside] at this
        cases this

include rooted other inside in
theorem listed_extend : ∀ q, ∀ c ∈ (s.extend t).childrenOf q,
    ((s.extend t).get c).isSome ∧ c.parent = some q ∧ c ≠ root := by
  intro q c member
  rw [mem_childrenOf_extend] at member
  rw [get_extend, isSome_or, Bool.or_eq_true]
  split_ifs at member
  · obtain ⟨known, isParent, notPath⟩ := other.listed q c member
    refine ⟨.inl known, isParent, ?_⟩
    rintro rfl
    exact notPath (inside.eq_of_length_le (other.below known).length_le)
  · obtain ⟨known, isParent, notRoot⟩ := rooted.listed q c member
    exact ⟨.inr known, isParent, notRoot⟩

end Extend

theorem insertEntryAtPath_eq (s : FileTreeMapStore) (path : Path) (entry : Entry) :
    s.insertEntryAtPath path entry = match (s.extend (ofEntry entry)).parentDirectory path with
      | some parent => (s.extend (ofEntry entry)).setChildren parent
          (((s.extend (ofEntry entry)).childrenOf parent).insert path)
      | none => s.extend (ofEntry entry) := rfl

theorem get_insertEntryAtPath (s : FileTreeMapStore) (path k : Path) (entry : Entry) :
    (s.insertEntryAtPath path entry).get k = ((ofEntry entry).get k).or (s.get k) := by
  rw [insertEntryAtPath_eq]
  cases (s.extend (ofEntry entry)).parentDirectory path <;> exact get_extend s _ k

theorem get_ofEntry (named : entry.Named) (k : Path) :
    (ofEntry entry).get k = some state ↔ state ∈ entry.states ∧ state.path = k := by
  rw [(ofEntry_appended named).get]
  refine ⟨fun found => found.resolve_right ?_, .inl⟩
  rintro ⟨⟩

theorem get_ofEntry_isSome (named : entry.Named) (k : Path) :
    ((ofEntry entry).get k).isSome ↔ ∃ state ∈ entry.states, state.path = k := by
  rw [isSome_iff_exists]
  simp only [get_ofEntry named]

theorem Rooted.insertEntryAtPath (rooted : Rooted root s) (named : entry.Named)
    (place : entry.path = root ∨ (s.parentDirectory entry.path).isSome)
    (again : ∀ k, (s.get k).isSome → entry.path <+: k → ∃ state ∈ entry.states, state.path = k) :
    Rooted root (s.insertEntryAtPath entry.path entry) := by
  have appended := ofEntry_appended named
  have again : ∀ k, (s.get k).isSome → entry.path <+: k → ((ofEntry entry).get k).isSome :=
    fun k known below => (get_ofEntry_isSome named k).mpr (again k known below)
  have top : ((ofEntry entry).get entry.path).isSome :=
    (get_ofEntry_isSome named _).mpr ⟨_, entry.state_mem_states, entry.path_state⟩
  have above : ∀ {q}, entry.path.parent = some q → (ofEntry entry).get q = none := by
    intro q isParent
    cases found : (ofEntry entry).get q with
    | none => rfl
    | some state =>
      obtain ⟨name, split⟩ := Path.parent_eq_some_iff.mp isParent
      have below := appended.rooted.below (by rw [found]; rfl : ((ofEntry entry).get q).isSome)
      rw [split] at below
      exact (Path.not_concat_prefix below).elim
  have inside : root <+: entry.path := by
    rcases place with same | isParent
    · rw [same]
    · obtain ⟨parent, isParent⟩ := Option.isSome_iff_exists.mp isParent
      obtain ⟨isParent, directory⟩ := parentDirectory_eq_some.mp isParent
      obtain ⟨state, found, -⟩ := getAsDirectory_isSome.mp directory
      obtain ⟨name, split⟩ := Path.parent_eq_some_iff.mp isParent
      exact (rooted.below (by rw [found]; rfl)).trans (split ▸ prefix_append _ _)
  have keyed := keyed_extend rooted appended.rooted
  have parents := parents_extend rooted appended.rooted appended.listing again
  have listed := listed_extend rooted appended.rooted inside
  set t := s.extend (ofEntry entry) with isExtended
  have sameDirectory : ∀ {q}, entry.path.parent = some q → t.get q = s.get q := by
    intro q isParent
    rw [isExtended, get_extend, above isParent, none_or]
  rw [insertEntryAtPath_eq, ← isExtended]
  cases isParent : t.parentDirectory entry.path with
  | none =>
    have same : entry.path = root := by
      refine place.resolve_right fun isSome => ?_
      obtain ⟨parent, isParent'⟩ := Option.isSome_iff_exists.mp isSome
      obtain ⟨named, directory⟩ := parentDirectory_eq_some.mp isParent'
      have : t.parentDirectory entry.path = some parent := by
        rw [parentDirectory_eq_some, getAsDirectory_isSome, sameDirectory named, ← getAsDirectory_isSome]
        exact ⟨named, directory⟩
      rw [isParent] at this
      cases this
    exact ⟨keyed, fun k known other => parents k known other (same ▸ other), listed⟩
  | some parent =>
    dsimp only
    obtain ⟨isParent, directory⟩ := parentDirectory_eq_some.mp isParent
    have other : entry.path ≠ root := by
      apply rooted.ne_root _ isParent
      rwa [getAsDirectory_isSome, ← sameDirectory isParent, ← getAsDirectory_isSome]
    constructor
    case keyed => exact keyed
    case parents =>
      intro k known notRoot
      by_cases same : k = entry.path
      · refine ⟨parent, same ▸ isParent, directory, ?_⟩
        rw [childrenOf_setChildren, if_pos rfl, HashSet.mem_insert]
        exact .inl same
      · obtain ⟨q, isParent', directory', member⟩ := parents k known notRoot same
        refine ⟨q, isParent', directory', ?_⟩
        rw [childrenOf_setChildren]
        split_ifs with here
        · exact HashSet.mem_insert.mpr (.inr (here ▸ member))
        · exact member
    case listed =>
      intro q c member
      rw [childrenOf_setChildren] at member
      split_ifs at member with here
      · rcases HashSet.mem_insert.mp member with rfl | member
        · refine ⟨?_, here ▸ isParent, other⟩
          show (t.get entry.path).isSome
          rw [isExtended, get_extend, isSome_or, top]
          rfl
        · rw [here]
          exact listed parent c member
      · exact listed q c member

end FileTreeMapStore

end Warp.RepoMetadata
