import Warp.RepoMetadata.FileTreeShape

namespace Warp.RepoMetadata.FileTreeMapStore

open List

variable {root source target q c k : Path} {old s : FileTreeMapStore} {done linked done' linked' : Path → Prop}

structure Apart (source target : Path) : Prop where
  left : ¬ source <+: target
  right : ¬ target <+: source

theorem Apart.ne (apart : Apart source target) (rest rest' : Path) : source ++ rest ≠ target ++ rest' := by
  intro same
  rcases List.append_eq_append_iff.mp same with ⟨middle, split, -⟩ | ⟨middle, split, -⟩
  · exact apart.left ⟨middle, split.symm⟩
  · exact apart.right ⟨middle, split.symm⟩

def moveChildren (s : FileTreeMapStore) (path newPath : Path) : FileTreeMapStore :=
  match s.parentToChildMap.get? path with
  | some children => { s with parentToChildMap := s.parentToChildMap.remove path }.setChildren newPath children
  | none => s

theorem get_moveChildren (s : FileTreeMapStore) (path newPath k : Path) : (s.moveChildren path newPath).get k = s.get k := by
  unfold moveChildren
  cases s.parentToChildMap.get? path <;> rfl

theorem mem_moveChildren {path newPath : Path} (s : FileTreeMapStore) (apart : path ≠ newPath)
    (none : ∀ c, c ∉ s.childrenOf newPath) (q c : Path) : c ∈ (s.moveChildren path newPath).childrenOf q ↔
      if q = newPath then c ∈ s.childrenOf path else if q = path then False else c ∈ s.childrenOf q := by
  unfold moveChildren
  cases found : s.parentToChildMap.get? path with
  | none =>
    have childless : ∀ c, c ∉ s.childrenOf path := fun c member => by
      have := isSome_of_mem_childrenOf member
      rw [found] at this
      cases this
    dsimp only
    split_ifs with same same'
    · rw [same]
      exact iff_of_false (none c) (childless c)
    · rw [same']
      exact iff_of_false (childless c) id
    · rfl
  | some children =>
    have isList : s.childrenOf path = children := by
      unfold childrenOf
      rw [found]
      rfl
    dsimp only
    rw [childrenOf_setChildren, Minus.childrenOf_removeList]
    split_ifs with same same'
    · rw [isList]
    · exact iff_of_false (HashSet.notMem_empty c) id
    · rfl

def followed (source target : Path) (fuel : ℕ) (s : FileTreeMapStore) (path newPath : Path) : FileTreeMapStore :=
  (s.childrenOf path).elems.foldl (fun s child => s.updatePathsUpTo source target fuel child) (s.moveChildren path newPath)

theorem followed_eq (source target : Path) (fuel : ℕ) (s : FileTreeMapStore) (path newPath : Path) :
    (match s.parentToChildMap.get? path with
      | some children =>
        children.elems.foldl (fun s child => s.updatePathsUpTo source target fuel child)
          ({ s with parentToChildMap := s.parentToChildMap.remove path }.setChildren newPath children)
      | none => s) = s.followed source target fuel path newPath := by
  unfold followed moveChildren childrenOf
  cases s.parentToChildMap.get? path <;> rfl

theorem removeItemAndParent_orphan {path : Path} (orphan : ∀ q, path.parent = some q → s.get q = none) :
    s.removeItemAndParent path = { s with stateMap := s.stateMap.remove path } := by
  unfold removeItemAndParent
  dsimp only
  cases isParent : parentDirectory { s with stateMap := s.stateMap.remove path } path with
  | none => rfl
  | some q =>
    obtain ⟨isParent, directory⟩ := parentDirectory_eq_some.mp isParent
    obtain ⟨entry, found, -⟩ := getAsDirectory_isSome.mp directory
    have found : (s.stateMap.remove path).get? q = some entry := found
    rw [HashMap.get?_remove, if_neg (Path.ne_of_parent isParent)] at found
    rw [show s.stateMap.get? q = none from orphan q isParent] at found
    cases found

theorem updatePathsUpTo_succ {names : Path} {item : FileTreeEntryState} (fuel : ℕ) (known : s.get (source ++ names) = some item) :
    s.updatePathsUpTo source target (fuel + 1) (source ++ names) =
      let next := ((s.removeItemAndParent (source ++ names)).insertState (target ++ names)
        (item.setPath (target ++ names))).followed source target fuel (source ++ names) (target ++ names)
      match (Path.parent (target ++ names)).bind fun parent => (next.parentToChildMap.get? parent).map (parent, ·) with
      | some (parent, children) =>
        next.setChildren parent ((children.remove (source ++ names)).insert (target ++ names))
      | none => next := by
  have inside : Path.startsWith (source ++ names) source = true := Path.startsWith_iff.mpr (prefix_append _ _)
  rw [updatePathsUpTo, if_pos inside, known]
  dsimp only
  rw [drop_left]
  exact congrArg (fun next : FileTreeMapStore =>
    match (Path.parent (target ++ names)).bind fun parent => (next.parentToChildMap.get? parent).map (parent, ·) with
    | some (parent, children) => next.setChildren parent ((children.remove (source ++ names)).insert (target ++ names))
    | none => next) (followed_eq ..)

/-- A rename under way: below the source the entries of `done` are at the target already, and those of `linked` are listed
under their new paths. -/
structure Relocated (old : FileTreeMapStore) (source target : Path) (done linked : Path → Prop) (s : FileTreeMapStore) : Prop where
  get : ∀ k entry, s.get k = some entry ↔
    (∃ rest, done rest ∧ k = target ++ rest ∧ ∃ before, old.get (source ++ rest) = some before ∧ entry = before.setPath k) ∨
    (∀ rest, done rest → k ≠ source ++ rest) ∧ k ≠ target ∧ old.get k = some entry
  mem : ∀ q c, c ∈ s.childrenOf q ↔
    (∃ rest name, done rest ∧ q = target ++ rest ∧ source ++ rest ++ [name] ∈ old.childrenOf (source ++ rest) ∧
      (linked (rest ++ [name]) ∧ c = target ++ rest ++ [name] ∨ ¬ linked (rest ++ [name]) ∧ c = source ++ rest ++ [name])) ∨
    ((∀ rest, done rest → q ≠ source ++ rest) ∧ c ∈ old.childrenOf q ∧ c ≠ source) ∨ c = target ∧ target.parent = some q

/-- The target's place: it is free, but for an entry with nothing below it. -/
structure Free (root : Path) (old : FileTreeMapStore) (source target : Path) : Prop where
  rooted : Rooted root old
  apart : Apart source target
  below : ∀ k, (old.get k).isSome → target <+: k → k = target

namespace Relocated

theorem congr (relocated : Relocated old source target done linked s) (rooted : Rooted root old)
    (agree : ∀ rest, (old.get (source ++ rest)).isSome → (done rest ↔ done' rest) ∧ (linked rest ↔ linked' rest)) :
    Relocated old source target done' linked' s := by
  have doneIff : ∀ k entry, old.get k = some entry → ((∀ rest, done rest → k ≠ source ++ rest) ↔
      ∀ rest, done' rest → k ≠ source ++ rest) := by
    intro k entry found
    constructor
    · rintro apart rest isDone rfl
      exact apart rest ((agree rest (by rw [found]; rfl)).1.mpr isDone) rfl
    · rintro apart rest isDone rfl
      exact apart rest ((agree rest (by rw [found]; rfl)).1.mp isDone) rfl
  have parentKnown : ∀ {q c}, c ∈ old.childrenOf q → ∃ entry, old.get q = some entry := by
    intro q c member
    obtain ⟨known, isParent, other⟩ := rooted.listed q c member
    obtain ⟨q', isParent', directory, -⟩ := rooted.parents c known other
    obtain rfl : q = q' := Option.some.inj (isParent.symm.trans isParent')
    obtain ⟨entry, found, -⟩ := getAsDirectory_isSome.mp directory
    exact ⟨entry, found⟩
  constructor
  · intro k entry
    rw [relocated.get]
    apply or_congr
    · apply exists_congr
      intro rest
      constructor
      · rintro ⟨isDone, same, before, found, rfl⟩
        exact ⟨(agree rest (by rw [found]; rfl)).1.mp isDone, same, before, found, rfl⟩
      · rintro ⟨isDone, same, before, found, rfl⟩
        exact ⟨(agree rest (by rw [found]; rfl)).1.mpr isDone, same, before, found, rfl⟩
    · constructor
      · rintro ⟨apart, other, found⟩
        exact ⟨(doneIff k entry found).mp apart, other, found⟩
      · rintro ⟨apart, other, found⟩
        exact ⟨(doneIff k entry found).mpr apart, other, found⟩
  · intro q c
    rw [relocated.mem]
    apply or_congr
    · apply exists_congr
      intro rest
      apply exists_congr
      intro name
      constructor
      · rintro ⟨isDone, same, member, either⟩
        obtain ⟨entry, found⟩ := parentKnown member
        refine ⟨(agree rest (by rw [found]; rfl)).1.mp isDone, same, member, ?_⟩
        have := (agree (rest ++ [name]) (by rw [← append_assoc]; exact (rooted.listed _ _ member).1)).2
        rwa [← this]
      · rintro ⟨isDone, same, member, either⟩
        obtain ⟨entry, found⟩ := parentKnown member
        refine ⟨(agree rest (by rw [found]; rfl)).1.mpr isDone, same, member, ?_⟩
        have := (agree (rest ++ [name]) (by rw [← append_assoc]; exact (rooted.listed _ _ member).1)).2
        rwa [this]
    · apply or_congr_left
      constructor
      · rintro ⟨apart, member, other⟩
        obtain ⟨entry, found⟩ := parentKnown member
        exact ⟨(doneIff q entry found).mp apart, member, other⟩
      · rintro ⟨apart, member, other⟩
        obtain ⟨entry, found⟩ := parentKnown member
        exact ⟨(doneIff q entry found).mpr apart, member, other⟩

section Step

variable {names : Path} {name : Str} {item : FileTreeEntryState} {t : FileTreeMapStore} (free : Free root old source target)

include free

section

variable (relocated : Relocated old source target done linked s)
include relocated

theorem mem_source (isDone : ¬ done names) :
    c ∈ s.childrenOf (source ++ names) ↔ c ∈ old.childrenOf (source ++ names) := by
  rw [relocated.mem]
  constructor
  · rintro (⟨rest, -, -, same, -⟩ | ⟨-, member, -⟩ | ⟨-, isParent⟩)
    · exact absurd same (free.apart.ne names rest)
    · exact member
    · obtain ⟨last, split⟩ := Path.parent_eq_some_iff.mp isParent
      exact absurd ⟨names ++ [last], by rw [split, append_assoc]⟩ free.apart.left
  · intro member
    refine .inr (.inl ⟨?_, member, ?_⟩)
    · intro rest isDone' same
      exact isDone (append_cancel_left same ▸ isDone')
    · rintro rfl
      obtain ⟨last, split⟩ := Path.parent_eq_some_iff.mp (free.rooted.listed _ _ member).2.1
      have := congrArg List.length split
      simp at this

theorem not_mem_target (some : names ≠ []) (isDone : ¬ done names) :
    c ∉ s.childrenOf (target ++ names) := by
  rw [relocated.mem]
  rintro (⟨rest, last, isDone', same, -⟩ | ⟨-, member, -⟩ | ⟨rfl, isParent⟩)
  · exact isDone (append_cancel_left same ▸ isDone')
  · obtain ⟨known, isParent, other⟩ := free.rooted.listed _ c member
    obtain ⟨last, rfl⟩ := Path.parent_eq_some_iff.mp isParent
    have := free.below _ known (by rw [append_assoc]; exact prefix_append _ _)
    simp at this
  · obtain ⟨last, split⟩ := Path.parent_eq_some_iff.mp isParent
    have := congrArg List.length split
    simp at this

theorem move (some : names ≠ []) (isDone : ¬ done names) (unlinked : ∀ last, ¬ linked (names ++ [last]))
    (known : old.get (source ++ names) = .some item)
    (get : ∀ k, t.get k = if k = target ++ names then .some (item.setPath (target ++ names)) else if k = source ++ names then none else s.get k)
    (mem : ∀ q c, c ∈ t.childrenOf q ↔ if q = target ++ names then c ∈ s.childrenOf (source ++ names) else if q = source ++ names then False else c ∈ s.childrenOf q) :
    Relocated old source target (fun rest => done rest ∨ rest = names) linked t := by
  constructor
  · intro k entry
    rw [get]
    split_ifs with atTarget atSource
    · rw [Option.some_inj]
      constructor
      · rintro rfl
        exact .inl ⟨names, .inr rfl, atTarget, item, known, by rw [atTarget]⟩
      · rintro (⟨rest, -, same, before, found, rfl⟩ | ⟨-, -, found⟩)
        · obtain rfl := append_cancel_left (atTarget.symm.trans same)
          rw [known] at found
          rw [Option.some.inj found, atTarget]
        · have := free.below k (by rw [found]; rfl) (atTarget ▸ prefix_append _ _)
          rw [atTarget] at this
          exact absurd (List.append_right_eq_self.mp this) some
    · refine iff_of_false nofun ?_
      rintro (⟨rest, -, same, -⟩ | ⟨apart, -, -⟩)
      · exact free.apart.ne _ _ (atSource.symm.trans same)
      · exact apart names (.inr rfl) atSource
    · rw [relocated.get]
      apply or_congr
      · apply exists_congr
        intro rest
        constructor
        · rintro ⟨isDone, moved⟩
          exact ⟨.inl isDone, moved⟩
        · rintro ⟨isDone | rfl, same, moved⟩
          · exact ⟨isDone, same, moved⟩
          · exact absurd same atTarget
      · constructor
        · rintro ⟨apart, found⟩
          refine ⟨?_, found⟩
          rintro rest (isDone | rfl)
          · exact apart rest isDone
          · exact atSource
        · rintro ⟨apart, found⟩
          exact ⟨fun rest isDone => apart rest (.inl isDone), found⟩
  · intro q c
    rw [mem]
    split_ifs with atTarget atSource
    · rw [mem_source free relocated isDone]
      constructor
      · intro member
        obtain ⟨last, rfl⟩ := Path.parent_eq_some_iff.mp (free.rooted.listed _ _ member).2.1
        exact .inl ⟨names, last, .inr rfl, atTarget, member, .inr ⟨unlinked last, rfl⟩⟩
      · rintro (⟨rest, last, -, same, member, either⟩ | ⟨-, member, -⟩ | ⟨rfl, isParent⟩)
        · obtain rfl := append_cancel_left (atTarget.symm.trans same)
          rcases either with ⟨linked, -⟩ | ⟨-, rfl⟩
          · exact absurd linked (unlinked last)
          · exact member
        · obtain ⟨isKey, isParent, other⟩ := free.rooted.listed _ c member
          obtain ⟨last, rfl⟩ := Path.parent_eq_some_iff.mp isParent
          have := free.below _ isKey (by rw [atTarget, append_assoc]; exact prefix_append _ _)
          rw [atTarget] at this
          simp at this
        · obtain ⟨last, split⟩ := Path.parent_eq_some_iff.mp isParent
          have := congrArg List.length split
          rw [atTarget] at this
          simp at this
    · refine iff_of_false id ?_
      rintro (⟨rest, last, -, same, -⟩ | ⟨apart, -, -⟩ | ⟨rfl, isParent⟩)
      · exact free.apart.ne _ _ (atSource.symm.trans same)
      · exact apart names (.inr rfl) atSource
      · obtain ⟨last, split⟩ := Path.parent_eq_some_iff.mp isParent
        exact free.apart.left ⟨names ++ [last], by rw [split, atSource, append_assoc]⟩
    · rw [relocated.mem]
      apply or_congr
      · apply exists_congr
        intro rest
        apply exists_congr
        intro last
        constructor
        · rintro ⟨isDone, moved⟩
          exact ⟨.inl isDone, moved⟩
        · rintro ⟨isDone | rfl, same, moved⟩
          · exact ⟨isDone, same, moved⟩
          · exact absurd same atTarget
      · apply or_congr_left
        constructor
        · rintro ⟨apart, member⟩
          refine ⟨?_, member⟩
          rintro rest (isDone | rfl)
          · exact apart rest isDone
          · exact atSource
        · rintro ⟨apart, member⟩
          exact ⟨fun rest isDone => apart rest (.inl isDone), member⟩

theorem link (isDone : done names) (unlinked : ¬ linked (names ++ [name]))
    (listed : source ++ names ++ [name] ∈ old.childrenOf (source ++ names)) {children : HashSet Path}
    (mem : ∀ c, c ∈ children ↔ c = target ++ names ++ [name] ∨ c ∈ s.childrenOf (target ++ names) ∧ c ≠ source ++ names ++ [name]) :
    Relocated old source target done (fun rest => linked rest ∨ rest = names ++ [name])
      (s.setChildren (target ++ names) children) := by
  refine ⟨relocated.get, fun q c => ?_⟩
  rw [childrenOf_setChildren]
  split_ifs with here
  · rw [mem, relocated.mem]
    constructor
    · rintro (rfl | ⟨⟨rest, last, isDone', same, member, either⟩ | ⟨apart, member, other⟩ | ⟨rfl, isParent⟩, other'⟩)
      · exact .inl ⟨names, name, isDone, here, listed, .inl ⟨.inr rfl, rfl⟩⟩
      · refine .inl ⟨rest, last, isDone', here.trans same, member, ?_⟩
        rcases either with ⟨linked, split⟩ | ⟨unlinked', split⟩
        · exact .inl ⟨.inl linked, split⟩
        · refine .inr ⟨?_, split⟩
          rintro (linked | same')
          · exact unlinked' linked
          · rw [split, append_assoc, same', ← append_assoc] at other'
            exact other' rfl
      · exact .inr (.inl ⟨here ▸ apart, here ▸ member, other⟩)
      · exact .inr (.inr ⟨rfl, here ▸ isParent⟩)
    · rintro (⟨rest, last, isDone', same, member, either⟩ | ⟨apart, member, other⟩ | ⟨rfl, isParent⟩)
      · obtain rfl := append_cancel_left (here.symm.trans same)
        rcases either with ⟨linked | same', split⟩ | ⟨unlinked', split⟩
        · refine .inr ⟨.inl ⟨names, last, isDone', rfl, member, .inl ⟨linked, split⟩⟩, ?_⟩
          rw [split, append_assoc, append_assoc]
          exact (free.apart.ne _ _).symm
        · rw [append_cancel_left_eq, singleton_inj] at same'
          rw [split, same']
          exact .inl rfl
        · refine .inr ⟨.inl ⟨names, last, isDone', rfl, member, .inr ⟨fun linked => unlinked' (.inl linked), split⟩⟩, ?_⟩
          rintro rfl
          have same : last = name := by simpa using split.symm
          exact unlinked' (.inr (by rw [same]))
      · obtain ⟨isKey, isParent, -⟩ := free.rooted.listed _ c member
        obtain ⟨last, rfl⟩ := Path.parent_eq_some_iff.mp isParent
        have := free.below _ isKey (by rw [here, append_assoc]; exact prefix_append _ _)
        rw [here] at this
        simp at this
      · obtain ⟨last, split⟩ := Path.parent_eq_some_iff.mp isParent
        have := congrArg List.length split
        rw [here] at this
        simp at this
  · rw [relocated.mem]
    apply or_congr_left
    apply exists_congr
    intro rest
    apply exists_congr
    intro last
    refine and_congr_right fun _ => and_congr_right fun same => and_congr_right fun _ => ?_
    have other : rest ++ [last] ≠ names ++ [name] := by
      intro equal
      obtain ⟨rfl, -⟩ := append_inj' equal rfl
      exact here same
    simp [other]

end

theorem folded {fuel : ℕ} (step : ∀ (s : FileTreeMapStore) names name (done linked : Path → Prop),
    Relocated old source target done linked s → done names →
    source ++ names ++ [name] ∈ old.childrenOf (source ++ names) →
    (∀ rest, names ++ [name] <+: rest → ¬ done rest ∧ ¬ linked rest) →
    (∀ k, (old.get k).isSome → source ++ names ++ [name] <+: k → k.length < fuel + (source ++ names ++ [name]).length) →
    Relocated old source target (fun rest => done rest ∨ names ++ [name] <+: rest)
      (fun rest => linked rest ∨ names ++ [name] <+: rest)
      (s.updatePathsUpTo source target fuel (source ++ names ++ [name]))) (cs : List Path) :
    ∀ (s : FileTreeMapStore) (done linked : Path → Prop), cs.Nodup → (∀ c ∈ cs, c ∈ old.childrenOf (source ++ names)) →
    Relocated old source target done linked s → done names →
    (∀ c ∈ cs, ∀ rest, c <+: source ++ rest → ¬ done rest ∧ ¬ linked rest) →
    (∀ k, (old.get k).isSome → source ++ names <+: k → k.length < fuel + 1 + (source ++ names).length) →
    Relocated old source target (fun rest => done rest ∨ ∃ c ∈ cs, c <+: source ++ rest)
      (fun rest => linked rest ∨ ∃ c ∈ cs, c <+: source ++ rest)
      (cs.foldl (fun s child => s.updatePathsUpTo source target fuel child) s) := by
  induction cs with
  | nil =>
    intro s done linked _ _ relocated _ _ _
    simpa using relocated
  | cons c cs ih =>
    intro s done linked distinct listed relocated isDone fresh enough
    obtain ⟨first, others⟩ := List.forall_mem_cons.mp listed
    obtain ⟨freshFirst, freshOthers⟩ := List.forall_mem_cons.mp fresh
    obtain ⟨notAgain, distinctOthers⟩ := List.nodup_cons.mp distinct
    obtain ⟨name, rfl⟩ := Path.parent_eq_some_iff.mp (free.rooted.listed _ c first).2.1
    have split : ∀ rest, source ++ names ++ [name] <+: source ++ rest ↔ names ++ [name] <+: rest := by
      intro rest
      rw [append_assoc, prefix_append_right_inj]
    have next := step s names name done linked relocated isDone first (fun rest below => freshFirst rest ((split rest).mpr below))
      fun k known below => by
        have := enough k known ((prefix_append _ _).trans below)
        rw [length_append, length_singleton]
        omega
    have rest := ih _ _ _ distinctOthers others next (.inl isDone) ?_ enough
    · refine rest.congr free.rooted fun rest _ => ?_
      rw [or_assoc, or_assoc, exists_mem_cons_iff, split]
      exact ⟨Iff.rfl, Iff.rfl⟩
    · intro c member rest below
      obtain ⟨notDone, notLinked⟩ := freshOthers c member rest below
      have apart : ¬ names ++ [name] <+: rest := by
        intro below'
        obtain ⟨name', split'⟩ := Path.parent_eq_some_iff.mp (free.rooted.listed _ c (others c member)).2.1
        have same := Path.prefix_unique below ((split rest).mpr below') (by rw [split']; simp)
        exact notAgain (same ▸ member)
      exact ⟨fun either => either.elim notDone apart, fun either => either.elim notLinked apart⟩

theorem updatePathsUpTo : ∀ fuel (s : FileTreeMapStore) names name (done linked : Path → Prop),
    Relocated old source target done linked s → done names →
    source ++ names ++ [name] ∈ old.childrenOf (source ++ names) →
    (∀ rest, names ++ [name] <+: rest → ¬ done rest ∧ ¬ linked rest) →
    (∀ k, (old.get k).isSome → source ++ names ++ [name] <+: k → k.length < fuel + (source ++ names ++ [name]).length) →
    Relocated old source target (fun rest => done rest ∨ names ++ [name] <+: rest)
      (fun rest => linked rest ∨ names ++ [name] <+: rest)
      (s.updatePathsUpTo source target fuel (source ++ names ++ [name])) := by
  intro fuel
  induction fuel with
  | zero =>
    intro s names name done linked _ _ listed _ enough
    have := enough _ (free.rooted.listed _ _ listed).1 prefix_rfl
    omega
  | succ fuel ih =>
    intro s names name done linked relocated isDone listed fresh enough
    have below : ∀ last, names ++ [name] <+: names ++ [name] ++ [last] := fun last => prefix_append _ _
    obtain ⟨notDone, notLinked⟩ := fresh _ prefix_rfl
    obtain ⟨item, known⟩ := Option.isSome_iff_exists.mp (free.rooted.listed _ _ listed).1
    rw [append_assoc] at known listed enough ⊢
    set rest := names ++ [name] with isRest
    have some : rest ≠ [] := by simp [isRest]
    have here : s.get (source ++ rest) = .some item := by
      refine (relocated.get _ _).mpr (.inr ⟨?_, fun same => free.apart.ne rest [] (by rwa [append_nil]), known⟩)
      intro other isDone same
      exact notDone (append_cancel_left same ▸ isDone)
    rw [updatePathsUpTo_succ fuel here]
    dsimp only
    -- The parent has moved, so the entry is removed from no list.
    have gone : s.get (source ++ names) = none := by
      cases found : s.get (source ++ names) with
      | none => rfl
      | some entry =>
        rcases (relocated.get _ _).mp found with ⟨other, -, same, -⟩ | ⟨apart, -⟩
        · exact absurd same (free.apart.ne _ _)
        · exact absurd rfl (apart names isDone)
    have orphan : s.removeItemAndParent (source ++ rest) =
        { s with stateMap := s.stateMap.remove (source ++ rest) } := by
      refine removeItemAndParent_orphan fun q isParent => ?_
      obtain rfl : source ++ names = q := by
        rw [isRest, ← append_assoc] at isParent
        exact Option.some.inj ((Path.parent_eq_some_iff.mpr ⟨name, rfl⟩).symm.trans isParent)
      exact gone
    set s1 := (s.removeItemAndParent (source ++ rest)).insertState (target ++ rest) (item.setPath (target ++ rest)) with isStored
    have get1 : ∀ k, s1.get k = if k = target ++ rest then .some (item.setPath (target ++ rest))
        else if k = source ++ rest then none else s.get k := by
      intro k
      rw [isStored, get_insertState, orphan]
      exact if_congr Iff.rfl rfl (HashMap.get?_remove ..)
    have children1 : ∀ q, s1.childrenOf q = s.childrenOf q := by
      intro q
      rw [isStored, childrenOf_insertState, orphan]
      rfl
    have moved : Relocated old source target (fun r => done r ∨ r = rest) linked (s1.moveChildren (source ++ rest) (target ++ rest)) := by
      refine relocated.move free some notDone (fun last => (fresh _ (below last)).2) known ?_ ?_
      · intro k
        rw [get_moveChildren, get1]
      · intro q c
        rw [mem_moveChildren s1 (free.apart.ne _ _) fun c => children1 _ ▸ relocated.not_mem_target free some notDone,
          children1, children1]
    have children : ∀ c, c ∈ (s1.childrenOf (source ++ rest)).elems ↔ c ∈ old.childrenOf (source ++ rest) := by
      intro c
      rw [HashSet.mem_elems, children1, relocated.mem_source free notDone]
    have named : ∀ c, c ∈ old.childrenOf (source ++ rest) → ∃ last, c = source ++ rest ++ [last] := fun c member =>
      Path.parent_eq_some_iff.mp (free.rooted.listed _ c member).2.1
    have all := folded free ih (s1.childrenOf (source ++ rest)).elems _ _ _ (s1.childrenOf (source ++ rest)).distinct
      (fun c member => (children c).mp member) moved (.inr rfl) ?_ ?_
    · set next := s1.followed source target fuel (source ++ rest) (target ++ rest)
      have stillListed : source ++ names ++ [name] ∈ next.childrenOf (target ++ names) := by
        refine (all.mem _ _).mpr (.inl ⟨names, name, .inl (.inl isDone), rfl, ?_, .inr ⟨?_, rfl⟩⟩)
        · rw [append_assoc]
          exact listed
        · rintro (linked | ⟨c, member, below⟩)
          · exact notLinked linked
          · obtain ⟨last, split⟩ := named c ((children c).mp member)
            rw [split, ← isRest] at below
            exact Path.not_concat_prefix below
      obtain ⟨list, isList⟩ := Option.isSome_iff_exists.mp (isSome_of_mem_childrenOf stillListed)
      have isParent : Path.parent (target ++ rest) = .some (target ++ names) :=
        Path.parent_eq_some_iff.mpr ⟨name, (append_assoc ..).symm⟩
      rw [isParent, Option.bind_some, isList]
      have isChildren : next.childrenOf (target ++ names) = list := by
        unfold childrenOf
        rw [isList]
        rfl
      have listed' : source ++ names ++ [name] ∈ old.childrenOf (source ++ names) := by
        rw [append_assoc]
        exact listed
      have unlinked : ¬ (linked (names ++ [name]) ∨ ∃ c ∈ (s1.childrenOf (source ++ rest)).elems, c <+: source ++ (names ++ [name])) := by
        rintro (isLinked | ⟨c, member, below⟩)
        · exact notLinked isLinked
        · obtain ⟨last, split⟩ := named c ((children c).mp member)
          exact Path.not_concat_prefix (split ▸ below)
      have relisted : ∀ c, c ∈ (list.remove (source ++ rest)).insert (target ++ rest) ↔ c = target ++ names ++ [name] ∨
          c ∈ next.childrenOf (target ++ names) ∧ c ≠ source ++ names ++ [name] := by
        intro c
        rw [HashSet.mem_insert, HashSet.mem_remove, isChildren, append_assoc, append_assoc]
      refine (link free all (.inl (.inl isDone)) unlinked listed' relisted).congr free.rooted fun r stored => ?_
      have split : rest <+: r ↔ r = rest ∨ ∃ c ∈ (s1.childrenOf (source ++ rest)).elems, c <+: source ++ r := by
        constructor
        · rintro ⟨more, rfl⟩
          cases more with
          | nil => exact .inl (append_nil _)
          | cons last more =>
            have below : source ++ rest ++ [last] <+: source ++ (rest ++ last :: more) := ⟨more, by simp⟩
            have inside := (free.rooted.below (by rw [known]; rfl)).trans (prefix_append (source ++ rest) [last])
            refine .inr ⟨_, (children _).mpr (free.rooted.mem_childrenOf.mpr ⟨free.rooted.closed stored below inside, ?_, ?_⟩), below⟩
            · exact Path.parent_eq_some_iff.mpr ⟨last, rfl⟩
            · exact fun same => Path.not_concat_prefix (same ▸ free.rooted.below (by rw [known]; rfl))
        · rintro (rfl | ⟨c, member, below⟩)
          · exact prefix_rfl
          · obtain ⟨last, rfl⟩ := named c ((children c).mp member)
            rw [append_assoc, prefix_append_right_inj] at below
            exact (prefix_append _ _).trans below
      rw [split, or_assoc, or_assoc, or_comm (b := r = names ++ [name])]
      exact ⟨Iff.rfl, Iff.rfl⟩
    · intro c member r below
      obtain ⟨last, rfl⟩ := named c ((children c).mp member)
      rw [append_assoc, prefix_append_right_inj] at below
      obtain ⟨notDone', notLinked'⟩ := fresh r ((prefix_append _ _).trans below)
      refine ⟨?_, notLinked'⟩
      rintro (isDone' | rfl)
      · exact notDone' isDone'
      · exact Path.not_concat_prefix below
    · intro k stored below
      have := enough k stored below
      omega

end Step

section Whole

variable {parent : Path} {item : FileTreeEntryState} {t : FileTreeMapStore} (free : Free root old source target)
  (known : old.get source = some item) (isParent : target.parent = some parent) (directory : (old.getAsDirectory parent).isSome)

include free known isParent directory

theorem outside : ¬ source <+: parent ∧ parent ≠ target := by
  obtain ⟨name, rfl⟩ := Path.parent_eq_some_iff.mp isParent
  exact ⟨fun below => free.apart.left (below.trans (prefix_append _ _)), by simp⟩

theorem rooted (relocated : Relocated old source target (fun _ => True) (· ≠ []) s) : Rooted root s := by
  obtain ⟨apartParent, otherParent⟩ := outside free known isParent directory
  obtain ⟨top, isTop, topDirectory⟩ := getAsDirectory_isSome.mp directory
  have insideTarget : root <+: target := by
    obtain ⟨name, split⟩ := Path.parent_eq_some_iff.mp isParent
    exact (free.rooted.below (by rw [isTop]; rfl)).trans (split ▸ prefix_append _ _)
  have insideSource : root <+: source := free.rooted.below (by rw [known]; rfl)
  have get : ∀ k entry, s.get k = some entry ↔
      (∃ rest, k = target ++ rest ∧ ∃ before, old.get (source ++ rest) = some before ∧ entry = before.setPath k) ∨
      ¬ source <+: k ∧ k ≠ target ∧ old.get k = some entry := by
    intro k entry
    rw [relocated.get]
    apply or_congr
    · simp
    · apply and_congr_left'
      exact ⟨fun apart ⟨rest, same⟩ => apart rest trivial same.symm, fun apart rest _ same => apart ⟨rest, same.symm⟩⟩
  have mem : ∀ q c, c ∈ s.childrenOf q ↔
      (∃ rest name, q = target ++ rest ∧ source ++ rest ++ [name] ∈ old.childrenOf (source ++ rest) ∧ c = target ++ rest ++ [name]) ∨
      (¬ source <+: q ∧ c ∈ old.childrenOf q ∧ c ≠ source) ∨ c = target ∧ target.parent = some q := by
    intro q c
    rw [relocated.mem]
    apply or_congr
    · simp
    · apply or_congr_left
      apply and_congr_left'
      exact ⟨fun apart ⟨rest, same⟩ => apart rest trivial same.symm, fun apart rest _ same => apart ⟨rest, same.symm⟩⟩
  have moved : ∀ {rest}, (old.get (source ++ rest)).isSome → (s.get (target ++ rest)).isSome := by
    intro rest stored
    obtain ⟨before, found⟩ := Option.isSome_iff_exists.mp stored
    exact Option.isSome_iff_exists.mpr ⟨_, (get _ _).mpr (.inl ⟨rest, rfl, before, found, rfl⟩)⟩
  have movedTop : (s.get target).isSome := by
    have := @moved [] (by rw [append_nil, known]; rfl)
    rwa [append_nil] at this
  constructor
  case keyed =>
    intro k entry found
    rcases (get k entry).mp found with ⟨rest, -, before, -, rfl⟩ | ⟨-, -, found⟩
    · exact FileTreeEntryState.path_setPath before k
    · exact free.rooted.keyed k entry found
  case parents =>
    intro k stored other
    obtain ⟨entry, found⟩ := Option.isSome_iff_exists.mp stored
    rcases (get k entry).mp found with ⟨rest, rfl, before, isBefore, -⟩ | ⟨apart, otherTarget, isOld⟩
    · rcases eq_nil_or_concat rest with rfl | ⟨init, name, rfl⟩
      · rw [append_nil]
        refine ⟨parent, isParent, getAsDirectory_isSome.mpr ⟨top, ?_, topDirectory⟩, ?_⟩
        · exact (get parent top).mpr (.inr ⟨apartParent, otherParent, isTop⟩)
        · exact (mem parent target).mpr (.inr (.inr ⟨rfl, isParent⟩))
      · rw [concat_eq_append, ← append_assoc] at isBefore ⊢
        have otherRoot : source ++ init ++ [name] ≠ root := by
          intro same
          rw [append_assoc] at same
          have := (same ▸ insideSource).length_le
          simp at this
        obtain ⟨q, isParent', directory', member⟩ := free.rooted.parents _ (by rw [isBefore]; rfl) otherRoot
        obtain rfl : source ++ init = q := Option.some.inj ((Path.parent_eq_some_iff.mpr ⟨name, rfl⟩).symm.trans isParent')
        obtain ⟨above, isAbove, aboveDirectory⟩ := getAsDirectory_isSome.mp directory'
        refine ⟨target ++ init, Path.parent_eq_some_iff.mpr ⟨name, rfl⟩, getAsDirectory_isSome.mpr ⟨above.setPath (target ++ init), ?_, ?_⟩, ?_⟩
        · exact (get _ _).mpr (.inl ⟨init, rfl, above, isAbove, rfl⟩)
        · rwa [FileTreeEntryState.isDirectory_setPath]
        · exact (mem _ _).mpr (.inl ⟨init, name, rfl, member, rfl⟩)
    · obtain ⟨q, isParent', directory', member⟩ := free.rooted.parents k (by rw [isOld]; rfl) other
      obtain ⟨above, isAbove, aboveDirectory⟩ := getAsDirectory_isSome.mp directory'
      obtain ⟨name, rfl⟩ := Path.parent_eq_some_iff.mp isParent'
      have apart' : ¬ source <+: q := fun below => apart (below.trans (prefix_append _ _))
      have otherTarget' : q ≠ target := by
        rintro rfl
        exact otherTarget (free.below _ (by rw [isOld]; rfl) (prefix_append _ _))
      refine ⟨q, isParent', getAsDirectory_isSome.mpr ⟨above, ?_, aboveDirectory⟩, ?_⟩
      · exact (get q above).mpr (.inr ⟨apart', otherTarget', isAbove⟩)
      · refine (mem q _).mpr (.inr (.inl ⟨apart', member, ?_⟩))
        rintro rfl
        exact apart prefix_rfl
  case listed =>
    intro q c member
    rcases (mem q c).mp member with ⟨rest, name, rfl, before, rfl⟩ | ⟨apart, member, other⟩ | ⟨rfl, isParent'⟩
    · refine ⟨?_, Path.parent_eq_some_iff.mpr ⟨name, rfl⟩, ?_⟩
      · rw [append_assoc]
        apply moved
        rw [← append_assoc]
        exact (free.rooted.listed _ _ before).1
      · intro same
        have := (same ▸ insideTarget).length_le
        simp at this
    · obtain ⟨stored, isParent', otherRoot⟩ := free.rooted.listed q c member
      refine ⟨?_, isParent', otherRoot⟩
      by_cases same : c = target
      · exact same ▸ movedTop
      · obtain ⟨entry, found⟩ := Option.isSome_iff_exists.mp stored
        refine Option.isSome_iff_exists.mpr ⟨entry, (get c entry).mpr (.inr ⟨?_, same, found⟩)⟩
        obtain ⟨name, rfl⟩ := Path.parent_eq_some_iff.mp isParent'
        intro below
        rcases List.prefix_concat_iff.mp below with same | below
        · exact other same.symm
        · exact apart below
    · exact ⟨movedTop, isParent', free.rooted.ne_root directory isParent⟩

end Whole

end Relocated

end Warp.RepoMetadata.FileTreeMapStore
