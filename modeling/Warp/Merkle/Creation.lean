import Warp.Merkle.Entries

namespace Warp.Merkle

open List

variable {T : Type} {absolutePath path : Path}

def Below (absolutePath path : Path) : Prop := absolutePath <+: path ∧ path ≠ absolutePath

instance : Decidable (Below absolutePath path) := inferInstanceAs (Decidable (_ ∧ _))

theorem below_concat_iff {init : Path} {name : Str} :
    Below absolutePath (init ++ [name]) ↔ absolutePath = init ∨ Below absolutePath init := by
  unfold Below
  rw [prefix_concat_iff]
  constructor
  · intro below
    rcases below with ⟨same | below, differs⟩
    · exact absurd same.symm differs
    · by_cases same : absolutePath = init
      · exact .inl same
      · exact .inr ⟨below, Ne.symm same⟩
  · intro cases
    rcases cases with same | below
    · subst same
      refine ⟨.inr (prefix_refl _), ?_⟩
      intro same
      have lengths := congrArg List.length same
      rw [length_append, length_singleton] at lengths
      omega
    · refine ⟨.inr below.1, ?_⟩
      intro same
      have lengths := congrArg List.length same
      have := below.1.length_le
      rw [length_append, length_singleton] at lengths
      omega

theorem ancestorsBelow_spec (current : List Str) :
    (Below absolutePath current.reverse → ∃ ancestors, ancestorsBelow absolutePath current = some ancestors ∧
      ∀ ancestor, ancestor ∈ ancestors ↔ Below absolutePath ancestor ∧ Below ancestor current.reverse) ∧
    (¬Below absolutePath current.reverse → current ≠ [] → ancestorsBelow absolutePath current = none) := by
  induction current with
  | nil =>
    refine ⟨?_, fun _ nonempty => absurd rfl nonempty⟩
    intro below
    exact absurd (List.prefix_nil.mp below.1).symm below.2
  | cons name current ih =>
    rw [reverse_cons, below_concat_iff, ancestorsBelow]
    by_cases same : current.reverse = absolutePath
    · rw [if_pos same]
      refine ⟨?_, fun outside => absurd (.inl same.symm) outside⟩
      intro _
      refine ⟨[], rfl, ?_⟩
      intro ancestor
      refine ⟨nofun, ?_⟩
      intro between
      rcases between with ⟨after, before⟩
      rw [below_concat_iff, same] at before
      rcases before with before | before
      · exact absurd before after.2
      · have := after.1.length_le
        have := before.1.length_le
        exact absurd (before.1.eq_of_length (by omega)) (Ne.symm before.2)
    · rw [if_neg same]
      constructor
      · intro below
        have below : Below absolutePath current.reverse := below.resolve_left (Ne.symm same)
        rcases ih.1 below with ⟨ancestors, found, mem⟩
        refine ⟨ancestors ++ [current.reverse], by rw [found]; rfl, ?_⟩
        intro ancestor
        rw [mem_append, mem_singleton, mem, below_concat_iff]
        constructor
        · intro cases
          rcases cases with ⟨after, before⟩ | last
          · exact ⟨after, .inr before⟩
          · rw [last]
            exact ⟨below, .inl rfl⟩
        · intro between
          rcases between with ⟨after, last | before⟩
          · exact .inr last
          · exact .inl ⟨after, before⟩
      · intro outside _
        rw [not_or] at outside
        by_cases atRoot : current = []
        · subst atRoot
          have same : ¬([] : Path) = absolutePath := same
          rw [ancestorsBelow, if_neg same]
          rfl
        · rw [ih.2 outside.2 atRoot]
          rfl

namespace Creation

variable {opened : List Path} {dirOk : Path → Prop} {creation : Creation} {fs : FileSystem T}

structure Level (dirOk : Path → Prop) (base : Path) (entries : List Entry) : Prop where
  located : ∀ entry ∈ entries, entry.path.parent = some base
  shaped : ∀ entry ∈ entries, entry.Shaped
  directories : ∀ entry ∈ entries, entry.isDirectory = true → dirOk entry.path
  distinct : (entries.map Entry.key).Nodup

/-- The directories to create are `opened`, with their ancestors below the directory of the update. -/
structure Sound (absolutePath : Path) (opened : List Path) (dirOk : Path → Prop) (creation : Creation) : Prop where
  keys : ∀ dir, (creation.createdDirs.get? dir).isSome = true ↔ dir ∈ opened
  below : ∀ dir ∈ opened, Below absolutePath dir
  parents : ∀ dir ∈ opened, ∀ base, dir.parent = some base → base = absolutePath ∨ base ∈ opened
  level : ∀ dir entries, creation.createdDirs.get? dir = some entries → Level dirOk dir entries
  top : Level dirOk absolutePath creation.entriesToCreate

def files (creation : Creation) : List Path :=
  creation.entriesToCreate.flatMap Entry.files ++ creation.createdDirs.entries.flatMap fun dir => dir.2.flatMap Entry.files

variable {entries : List Entry} {entry : Entry}

theorem Level.concat {base : Path} (level : Level dirOk base entries) (located : entry.path.parent = some base)
    (shaped : entry.Shaped) (directory : entry.isDirectory = true → dirOk entry.path)
    (fresh : ∀ other ∈ entries, other.key ≠ entry.key) :
    Level dirOk base (entries ++ [entry]) := by
  refine ⟨?_, ?_, ?_, ?_⟩
  · exact List.forall_mem_append.mpr ⟨level.located, List.forall_mem_singleton.mpr located⟩
  · exact List.forall_mem_append.mpr ⟨level.shaped, List.forall_mem_singleton.mpr shaped⟩
  · intro other member
    rcases List.mem_append.mp member with old | new
    · exact level.directories other old
    · rw [List.mem_singleton.mp new]
      exact directory
  · rw [map_append, map_singleton]
    apply List.nodup_append.mpr
    refine ⟨level.distinct, nodup_singleton _, ?_⟩
    intro key isKey other isOther
    rcases List.mem_map.mp isKey with ⟨old, isOld, rfl⟩
    rw [List.mem_singleton.mp isOther]
    exact fresh old isOld

theorem Sound.attach {base : Path} {entry : Entry} (sound : Sound absolutePath opened dirOk creation)
    (located : entry.path.parent = some base) (isOpened : base = absolutePath ∨ base ∈ opened) (shaped : entry.Shaped)
    (directory : entry.isDirectory = true → dirOk entry.path)
    (freshTop : base = absolutePath → ∀ other ∈ creation.entriesToCreate, other.key ≠ entry.key)
    (fresh : ∀ entries, creation.createdDirs.get? base = some entries → ∀ other ∈ entries, other.key ≠ entry.key) :
    Sound absolutePath opened dirOk (creation.attach absolutePath base entry) ∧
      (creation.attach absolutePath base entry).files.Perm (creation.files ++ entry.files) := by
  unfold Creation.attach
  by_cases isTop : base = absolutePath
  · rw [if_pos isTop]
    refine ⟨⟨sound.keys, sound.below, sound.parents, sound.level, ?_⟩, ?_⟩
    · exact sound.top.concat (isTop ▸ located) shaped directory (freshTop isTop)
    · unfold files
      dsimp only
      rw [flatMap_append, flatMap_singleton, append_assoc, append_assoc]
      exact List.perm_append_comm.append_left _
  · rw [if_neg isTop]
    have isOpened := isOpened.resolve_left isTop
    cases found : creation.createdDirs.get? base with
    | none =>
      have isKey := (sound.keys base).mpr isOpened
      rw [found] at isKey
      cases isKey
    | some entries =>
      refine ⟨⟨?_, sound.below, sound.parents, ?_, sound.top⟩, ?_⟩
      · intro dir
        dsimp only
        rw [HashMap.get?_insert, ← sound.keys dir]
        by_cases same : dir = base
        · rw [if_pos same, same, found]
          rfl
        · rw [if_neg same]
      · intro dir children isChildren
        dsimp only at isChildren
        rw [HashMap.get?_insert] at isChildren
        by_cases same : dir = base
        · rw [if_pos same, Option.some_inj] at isChildren
          rw [← isChildren, same]
          exact (sound.level base entries found).concat located shaped directory (fresh entries found)
        · rw [if_neg same] at isChildren
          exact sound.level dir children isChildren
      · unfold files
        dsimp only [HashMap.insert]
        have before := (HashMap.remove_perm found).flatMap_right fun dir => dir.2.flatMap Entry.files
        rw [flatMap_append, flatMap_singleton] at before
        rw [flatMap_append, flatMap_singleton, flatMap_append, flatMap_singleton, append_assoc,
          ← append_assoc ((creation.createdDirs.remove base).entries.flatMap _)]
        exact (before.symm.append_right _).append_left _

theorem openDirs_spec (ancestors : List Path) (dirs : HashMap Path (List Entry)) :
    (∀ dir, (ancestors.foldl openDir dirs).get? dir = (dirs.get? dir).or (if dir ∈ ancestors then some [] else none)) ∧
      (ancestors.foldl openDir dirs).entries.flatMap (fun dir => dir.2.flatMap Entry.files) =
        dirs.entries.flatMap fun dir => dir.2.flatMap Entry.files := by
  induction ancestors generalizing dirs with
  | nil =>
    refine ⟨?_, rfl⟩
    intro dir
    simp
  | cons ancestor ancestors ih =>
    rw [foldl_cons]
    cases found : dirs.get? ancestor with
    | some entries =>
      have opened : openDir dirs ancestor = dirs := by
        unfold openDir
        rw [found]
      rw [opened]
      refine ⟨?_, (ih dirs).2⟩
      intro dir
      rw [(ih dirs).1 dir]
      by_cases same : dir = ancestor
      · rw [same, found]
        rfl
      · simp [same]
    | none =>
      have opened : openDir dirs ancestor = dirs.insert ancestor [] := by
        unfold openDir
        rw [found]
      rw [opened]
      refine ⟨?_, ((ih (dirs.insert ancestor [])).2).trans ?_⟩
      · intro dir
        rw [(ih (dirs.insert ancestor [])).1 dir, HashMap.get?_insert]
        by_cases same : dir = ancestor
        · rw [if_pos same, same, found]
          simp
        · rw [if_neg same]
          simp [same]
      · unfold HashMap.insert
        dsimp only
        rw [HashMap.remove_eq_self found, flatMap_append]
        simp

theorem Sound.createDirs {ancestors : List Path} (sound : Sound absolutePath opened dirOk creation)
    (below : ∀ dir ∈ ancestors, Below absolutePath dir)
    (parents : ∀ dir ∈ ancestors, ∀ base, dir.parent = some base → base = absolutePath ∨ base ∈ ancestors) :
    Sound absolutePath (opened ++ ancestors) dirOk (creation.createDirs ancestors) ∧
      (creation.createDirs ancestors).files = creation.files := by
  rcases openDirs_spec ancestors creation.createdDirs with ⟨lookups, entries⟩
  refine ⟨⟨?_, ?_, ?_, ?_, sound.top⟩, ?_⟩
  · intro dir
    unfold Creation.createDirs
    dsimp only
    rw [lookups dir, mem_append, ← sound.keys dir]
    cases creation.createdDirs.get? dir with
    | some entries => simp
    | none => by_cases member : dir ∈ ancestors <;> simp [member]
  · exact List.forall_mem_append.mpr ⟨sound.below, below⟩
  · intro dir member base isParent
    rw [mem_append]
    rcases List.mem_append.mp member with old | new
    · rcases sound.parents dir old base isParent with isTop | isOpened
      · exact .inl isTop
      · exact .inr (.inl isOpened)
    · rcases parents dir new base isParent with isTop | isNew
      · exact .inl isTop
      · exact .inr (.inr isNew)
  · intro dir children isChildren
    unfold Creation.createDirs at isChildren
    dsimp only at isChildren
    rw [lookups dir] at isChildren
    cases found : creation.createdDirs.get? dir with
    | some entries =>
      rw [found, Option.some_or, Option.some_inj] at isChildren
      rw [← isChildren]
      exact sound.level dir entries found
    | none =>
      rw [found, Option.none_or] at isChildren
      by_cases member : dir ∈ ancestors
      · rw [if_pos member, Option.some_inj] at isChildren
        rw [← isChildren]
        exact ⟨nofun, nofun, nofun, nodup_nil⟩
      · rw [if_neg member] at isChildren
        cases isChildren
  · unfold Creation.createDirs files
    dsimp only
    rw [entries]

theorem Sound.congr {opened' : List Path} {dirOk' : Path → Prop} (sound : Sound absolutePath opened dirOk creation)
    (same : ∀ dir, dir ∈ opened' ↔ dir ∈ opened) (weaker : ∀ dir, dirOk dir → dirOk' dir) :
    Sound absolutePath opened' dirOk' creation := by
  have levels : ∀ base entries, Level dirOk base entries → Level dirOk' base entries := fun base entries level =>
    ⟨level.located, level.shaped, fun entry member isDirectory => weaker _ (level.directories entry member isDirectory),
      level.distinct⟩
  constructor
  · intro dir
    rw [same]
    exact sound.keys dir
  · intro dir member
    exact sound.below dir ((same dir).mp member)
  · intro dir member base isParent
    rw [same]
    exact sound.parents dir ((same dir).mp member) base isParent
  · intro dir entries isEntry
    exact levels dir entries (sound.level dir entries isEntry)
  · exact levels absolutePath _ sound.top

theorem mem_files_of_top (member : entry ∈ creation.entriesToCreate) (inEntry : path ∈ entry.files) :
    path ∈ creation.files :=
  mem_append_left _ (List.mem_flatMap.mpr ⟨entry, member, inEntry⟩)

theorem mem_files_of_level {dir : Path} (found : creation.createdDirs.get? dir = some entries)
    (member : entry ∈ entries) (inEntry : path ∈ entry.files) :
    path ∈ creation.files := by
  apply mem_append_right
  have children : path ∈ entries.flatMap Entry.files := List.mem_flatMap.mpr ⟨entry, member, inEntry⟩
  exact List.mem_flatMap.mpr ⟨(dir, entries), HashMap.get?_eq_some_iff.mp found, children⟩

theorem mem_files_of_key (same : entry.key = (false, path)) : path ∈ entry.files := by
  cases entry with
  | file other =>
    have samePath : other = path := congrArg Prod.snd same
    rw [samePath]
    exact mem_singleton_self path
  | directory other entries => cases congrArg Prod.fst same

def Creatable (fs : FileSystem T) (absolutePath path : Path) : Prop :=
  Below absolutePath path ∧ fs.isDir path = false ∧ fs.pathExists path = true

instance : Decidable (Creatable fs absolutePath path) := inferInstanceAs (Decidable (_ ∧ _))

theorem addPath_spec (sound : Sound absolutePath opened (fun _ => False) creation) (fresh : path ∉ creation.files) :
    ∃ opened, Sound absolutePath opened (fun _ => False) (creation.addPath fs absolutePath path) ∧
      (creation.addPath fs absolutePath path).files.Perm
        (creation.files ++ if Creatable fs absolutePath path then [path] else []) := by
  have unchanged : ∀ next : Creation, next = creation → ¬Creatable fs absolutePath path →
      ∃ opened, Sound absolutePath opened (fun _ => False) next ∧
        next.files.Perm (creation.files ++ if Creatable fs absolutePath path then [path] else []) := by
    intro next same excluded
    subst same
    rw [if_neg excluded, append_nil]
    exact ⟨opened, sound, List.Perm.refl _⟩
  have ancestry := @ancestorsBelow_spec absolutePath path.reverse
  rw [reverse_reverse] at ancestry
  unfold addPath
  by_cases skipped : (fs.isDir path || !fs.pathExists path) = true
  · rw [if_pos skipped]
    apply unchanged _ rfl
    intro creatable
    rw [creatable.2.1, creatable.2.2] at skipped
    cases skipped
  · rw [if_neg skipped]
    rw [Bool.not_eq_true, Bool.or_eq_false_iff, Bool.not_eq_false'] at skipped
    by_cases below : Below absolutePath path
    · have creatable : Creatable fs absolutePath path := ⟨below, skipped⟩
      rcases ancestry.1 below with ⟨ancestors, found, mem⟩
      rcases eq_nil_or_concat path with atRoot | ⟨base, name, same⟩
      · rw [atRoot] at below
        exact absurd (List.prefix_nil.mp below.1).symm below.2
      · rw [concat_eq_append] at same
        have isParent : path.parent = some base := Path.parent_eq_some_iff.mpr ⟨name, same⟩
        have between : ∀ dir, dir <+: base → Below dir path := by
          intro dir isPrefix
          rw [same, below_concat_iff]
          by_cases sameDir : dir = base
          · exact .inl sameDir
          · exact .inr ⟨isPrefix, Ne.symm sameDir⟩
        have parents : ∀ dir ∈ ancestors, ∀ above, dir.parent = some above → above = absolutePath ∨ above ∈ ancestors := by
          intro dir member above isAbove
          rcases (mem dir).mp member with ⟨after, before⟩
          rcases Path.parent_eq_some_iff.mp isAbove with ⟨last, sameDir⟩
          rw [sameDir, below_concat_iff] at after
          rcases after with top | after
          · exact .inl top.symm
          · refine .inr ((mem above).mpr ⟨after, ?_⟩)
            have isPrefix : above <+: dir := by
              rw [sameDir]
              exact prefix_append above [last]
            refine ⟨isPrefix.trans before.1, ?_⟩
            intro whole
            have := before.1.length_le
            have := congrArg List.length sameDir
            rw [length_append, length_singleton, ← whole] at this
            omega
        rcases sound.createDirs (fun dir member => ((mem dir).mp member).1) parents with ⟨created, sameFiles⟩
        have isOpened : base = absolutePath ∨ base ∈ opened ++ ancestors := by
          rw [same, below_concat_iff] at below
          rcases below with top | belowBase
          · exact .inl top.symm
          · apply Or.inr
            apply mem_append_right
            exact (mem base).mpr ⟨belowBase, between base (prefix_refl base)⟩
        rw [← sameFiles] at fresh
        rcases @Sound.attach _ _ _ _ _ (.file path) created isParent isOpened (.file path) nofun
          (fun _ other member key => fresh (mem_files_of_top member (mem_files_of_key key)))
          (fun entries found other member key => fresh (mem_files_of_level found member (mem_files_of_key key))) with
          ⟨attached, files⟩
        rw [found, isParent, if_pos creatable]
        rw [sameFiles] at files
        exact ⟨opened ++ ancestors, attached, files⟩
    · have excluded : ¬Creatable fs absolutePath path := fun creatable => below creatable.1
      by_cases atRoot : path = []
      · rw [atRoot]
        rw [atRoot] at unchanged excluded
        unfold List.reverse List.reverseAux ancestorsBelow
        by_cases top : [] = absolutePath
        · rw [if_pos top]
          exact unchanged _ rfl excluded
        · rw [if_neg top]
          exact unchanged _ rfl excluded
      · rw [ancestry.2 below fun empty => atRoot (List.reverse_eq_nil_iff.mp empty)]
        exact unchanged _ rfl excluded

theorem addPaths_spec {paths : List Path} (sound : Sound absolutePath opened (fun _ => False) creation)
    (distinct : paths.Nodup) (fresh : ∀ path ∈ paths, path ∉ creation.files) :
    ∃ opened, Sound absolutePath opened (fun _ => False) (paths.foldl (addPath fs absolutePath) creation) ∧
      (paths.foldl (addPath fs absolutePath) creation).files.Perm
        (creation.files ++ paths.filter fun path => Creatable fs absolutePath path) := by
  induction paths generalizing creation opened with
  | nil =>
    rw [filter_nil, append_nil]
    exact ⟨opened, sound, List.Perm.refl _⟩
  | cons path paths ih =>
    rw [forall_mem_cons] at fresh
    rw [nodup_cons] at distinct
    rcases addPath_spec sound fresh.1 with ⟨nextOpened, next, nextFiles⟩
    have stillFresh : ∀ other ∈ paths, other ∉ (creation.addPath fs absolutePath path).files := by
      intro other member inFiles
      rcases List.mem_append.mp (nextFiles.mem_iff.mp inFiles) with old | new
      · exact fresh.2 other member old
      · by_cases creatable : Creatable fs absolutePath path
        · rw [if_pos creatable, mem_singleton] at new
          rw [new] at member
          exact distinct.1 member
        · rw [if_neg creatable] at new
          cases new
    rcases ih next distinct.2 stillFresh with ⟨lastOpened, last, lastFiles⟩
    refine ⟨lastOpened, last, lastFiles.trans ?_⟩
    refine (nextFiles.append_right _).trans ?_
    rw [append_assoc]
    apply List.Perm.append_left
    by_cases creatable : Creatable fs absolutePath path
    · rw [if_pos creatable, filter_cons, if_pos (by simpa using creatable)]
      exact List.Perm.refl _
    · rw [if_neg creatable, filter_cons, if_neg (by simpa using creatable)]
      exact List.Perm.refl _

theorem attachDir_spec {dirPath : Path} {rest : List Path} (distinct : (dirPath :: rest).Nodup)
    (sorted : (dirPath :: rest).Pairwise deeper)
    (sound : Sound absolutePath (dirPath :: rest) (· ∉ dirPath :: rest) creation) :
    Sound absolutePath rest (· ∉ rest) (creation.attachDir absolutePath dirPath) ∧
      (creation.attachDir absolutePath dirPath).files.Perm creation.files := by
  rw [nodup_cons] at distinct
  rw [pairwise_cons] at sorted
  have weaker : ∀ base entries, Level (· ∉ dirPath :: rest) base entries → Level (· ∉ rest) base entries := by
    intro base entries level
    refine ⟨level.located, level.shaped, ?_, level.distinct⟩
    intro entry member isDirectory inRest
    exact level.directories entry member isDirectory (mem_cons_of_mem _ inRest)
  have below := sound.below dirPath mem_cons_self
  rcases eq_nil_or_concat dirPath with atRoot | ⟨base, name, same⟩
  · rw [atRoot] at below
    exact absurd (List.prefix_nil.mp below.1).symm below.2
  · rw [concat_eq_append] at same
    have isParent : dirPath.parent = some base := Path.parent_eq_some_iff.mpr ⟨name, same⟩
    -- the parents of the directories that are left are no deeper than those
    have shorter : ∀ dir above : Path, dir.length ≤ dirPath.length → dir.parent = some above → above ≠ dirPath := by
      intro dir above lengths isAbove sameAbove
      rcases Path.parent_eq_some_iff.mp isAbove with ⟨last, sameDir⟩
      rw [sameDir, sameAbove, length_append, length_singleton] at lengths
      omega
    cases found : creation.createdDirs.get? dirPath with
    | none =>
      have isKey := (sound.keys dirPath).mpr mem_cons_self
      rw [found] at isKey
      cases isKey
    | some children =>
      have closed := sound.level dirPath children found
      let removed : Creation := { creation with createdDirs := creation.createdDirs.remove dirPath }
      have removedSound : Sound absolutePath rest (· ∉ rest) removed := by
        constructor
        · intro dir
          dsimp only [removed]
          rw [HashMap.get?_remove]
          by_cases sameDir : dir = dirPath
          · rw [if_pos sameDir, sameDir]
            exact iff_of_false nofun distinct.1
          · rw [if_neg sameDir, sound.keys dir, mem_cons]
            exact or_iff_right sameDir
        · intro dir member
          exact sound.below dir (mem_cons_of_mem _ member)
        · intro dir member above isAbove
          rcases sound.parents dir (mem_cons_of_mem _ member) above isAbove with top | isOpened
          · exact .inl top
          · exact .inr ((List.mem_cons.mp isOpened).resolve_left (shorter dir above (sorted.1 dir member) isAbove))
        · intro dir entries isEntry
          dsimp only [removed] at isEntry
          rw [HashMap.get?_remove] at isEntry
          by_cases sameDir : dir = dirPath
          · rw [if_pos sameDir] at isEntry
            cases isEntry
          · rw [if_neg sameDir] at isEntry
            exact weaker dir entries (sound.level dir entries isEntry)
        · exact weaker absolutePath _ sound.top
      have isOpened : base = absolutePath ∨ base ∈ rest := by
        rcases sound.parents dirPath mem_cons_self base isParent with top | isOpened
        · exact .inl top
        · exact .inr ((List.mem_cons.mp isOpened).resolve_left (shorter dirPath base (Nat.le_refl _) isParent))
      have fresh : ∀ above entries, Level (· ∉ dirPath :: rest) above entries → ∀ other ∈ entries,
          other.key ≠ (Entry.directory dirPath children).key := by
        intro above entries level other member key
        have isDirectory : other.isDirectory = true := congrArg Prod.fst key
        have samePath : other.path = dirPath := congrArg Prod.snd key
        have notOpened := level.directories other member isDirectory
        rw [samePath] at notOpened
        exact notOpened mem_cons_self
      have freshBase : ∀ entries, removed.createdDirs.get? base = some entries → ∀ other ∈ entries,
          other.key ≠ (Entry.directory dirPath children).key := by
        intro entries isEntry
        dsimp only [removed] at isEntry
        rw [HashMap.get?_remove, if_neg (shorter dirPath base (Nat.le_refl _) isParent)] at isEntry
        exact fresh base entries (sound.level base entries isEntry)
      rcases @Sound.attach _ _ _ _ _ (.directory dirPath children) removedSound isParent isOpened
        (.directory dirPath children closed.located closed.shaped closed.distinct) (fun _ => distinct.1)
        (fun _ => fresh absolutePath _ sound.top) freshBase with ⟨attached, files⟩
      unfold attachDir
      rw [isParent, found]
      refine ⟨attached, files.trans ?_⟩
      unfold Creation.files
      dsimp only [removed]
      rw [append_assoc, Entry.files_directory]
      have parts := (HashMap.remove_perm found).flatMap_right fun dir => dir.2.flatMap Entry.files
      rw [flatMap_append, flatMap_singleton] at parts
      exact (parts.symm).append_left _

theorem attachDirs_spec {dirPaths : List Path} (distinct : dirPaths.Nodup) (sorted : dirPaths.Pairwise deeper)
    (sound : Sound absolutePath dirPaths (· ∉ dirPaths) creation) :
    Sound absolutePath [] (· ∉ []) (dirPaths.foldl (attachDir absolutePath) creation) ∧
      (dirPaths.foldl (attachDir absolutePath) creation).files.Perm creation.files := by
  induction dirPaths generalizing creation with
  | nil => exact ⟨sound, List.Perm.refl _⟩
  | cons dirPath dirPaths ih =>
    rcases attachDir_spec distinct sorted sound with ⟨next, nextFiles⟩
    rcases ih (List.nodup_cons.mp distinct).2 (List.pairwise_cons.mp sorted).2 next with ⟨last, lastFiles⟩
    exact ⟨last, lastFiles.trans nextFiles⟩

end Creation

open Creation

instance : Std.Total deeper := ⟨fun a b => Nat.le_total b.length a.length⟩

instance : IsTrans Path deeper := ⟨fun _ _ _ first second => Nat.le_trans second first⟩

theorem entriesToCreate_spec (fs : FileSystem T) (absolutePath : Path) (paths : HashSet Path) :
    Level (fun _ => True) absolutePath (entriesToCreate fs absolutePath paths) ∧
      ((entriesToCreate fs absolutePath paths).flatMap Entry.files).Perm
        (paths.elems.filter fun path => Creatable fs absolutePath path) := by
  have start : Sound absolutePath [] (fun _ => False) ⟨.empty, []⟩ := by
    constructor
    · intro dir
      exact iff_of_false nofun nofun
    · nofun
    · nofun
    · nofun
    · exact ⟨nofun, nofun, nofun, nodup_nil⟩
  rcases addPaths_spec start paths.distinct (fun _ _ => nofun) with ⟨opened, first, firstFiles⟩
  unfold entriesToCreate
  generalize paths.elems.foldl (addPath fs absolutePath) ⟨.empty, []⟩ = creation at first firstFiles
  have keys : ∀ dir, dir ∈ creation.createdDirs.keys.insertionSort deeper ↔ dir ∈ opened := by
    intro dir
    rw [mem_insertionSort, ← HashMap.get?_isSome_iff]
    exact first.keys dir
  have ordered := pairwise_insertionSort deeper creation.createdDirs.keys
  have distinct : (creation.createdDirs.keys.insertionSort deeper).Nodup :=
    (perm_insertionSort deeper creation.createdDirs.keys).nodup_iff.mpr creation.createdDirs.distinct
  rcases attachDirs_spec distinct ordered (first.congr keys fun _ => False.elim) with ⟨last, lastFiles⟩
  dsimp only
  generalize (creation.createdDirs.keys.insertionSort deeper).foldl (attachDir absolutePath) creation = final
    at last lastFiles
  refine ⟨⟨last.top.located, last.top.shaped, fun _ _ _ => trivial, last.top.distinct⟩, ?_⟩
  have noDirs : final.createdDirs.entries = [] := by
    apply List.eq_nil_iff_forall_not_mem.mpr
    intro entry member
    have isKey : (final.createdDirs.get? entry.1).isSome = true := by
      rw [HashMap.get?_eq_some_iff.mpr member]
      rfl
    cases (last.keys entry.1).mp isKey
  unfold Creation.files at lastFiles
  rw [noDirs, flatMap_nil, append_nil] at lastFiles
  exact lastFiles.trans firstFiles

end Warp.Merkle
