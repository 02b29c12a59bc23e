import Warp.Lib.Lines

namespace Warp.Util

open List

inductive PathType
  | unix
  | windows
  deriving DecidableEq, Repr

namespace PathType

def separator : PathType → Char
  | unix => '/'
  | windows => '\\'

def isSeparator : PathType → Char → Bool
  | unix, c => c = '/'
  | windows, c => c = '/' || c = '\\'

def split (type : PathType) (text : Str) : List Str := (text.splitOnP type.isSeparator).filter (· ≠ [])

structure IsName (type : PathType) (name : Str) : Prop where
  filled : name ≠ []
  notCurrent : name ≠ ['.']
  notParent : name ≠ ['.', '.']
  whole : ∀ c ∈ name, type.isSeparator c = false

end PathType

@[ext]
structure TypedPathBuf where
  pathType : PathType
  prefixText : Str
  hasRoot : Bool
  names : List Str
  deriving DecidableEq, Repr

def joined (separator : Char) : List Str → Str
  | [] => []
  | [name] => name
  | name :: names => name ++ separator :: joined separator names

namespace TypedPathBuf

inductive Component
  | leading (text : Str)
  | rootDir
  | normal (name : Str)
  deriving DecidableEq, Repr

def components (p : TypedPathBuf) : List Component :=
  (if p.prefixText = [] then [] else [.leading p.prefixText]) ++
    ((if p.hasRoot then [.rootDir] else []) ++ p.names.map .normal)

def toStr (p : TypedPathBuf) : Str :=
  p.prefixText ++ ((if p.hasRoot then [p.pathType.separator] else []) ++ joined p.pathType.separator p.names)

/-- A segment with a root or a prefix of its own takes the place of what it is pushed onto. `prefixLength` is the length of
the Windows prefix that a text starts with. -/
def push (prefixLength : Str → ℕ) (p : TypedPathBuf) (segment : Str) : TypedPathBuf :=
  let rooted := segment.head?.any p.pathType.isSeparator
  match p.pathType with
  | .unix =>
    if rooted then ⟨.unix, [], true, PathType.unix.split segment⟩
    else { p with names := p.names ++ PathType.unix.split segment }
  | .windows =>
    let length := prefixLength segment
    if length ≠ 0 then
      let rest := segment.drop length
      ⟨.windows, segment.take length, rest.head?.any PathType.windows.isSeparator, PathType.windows.split rest⟩
    else if rooted then { p with hasRoot := true, names := PathType.windows.split segment }
    else { p with names := p.names ++ PathType.windows.split segment }

def normalize (p : TypedPathBuf) : TypedPathBuf :=
  { p with names := p.names.foldl step [] }
where
  step (kept : List Str) (name : Str) : List Str :=
    if name = ['.'] then kept else if name = ['.', '.'] then kept.dropLast else kept ++ [name]

end TypedPathBuf

@[ext]
structure StandardizedPath where
  path : TypedPathBuf
  absolute : path.hasRoot = true
  normal : ∀ name ∈ path.names, path.pathType.IsName name
  prefixed : match path.pathType with
    | .unix => path.prefixText = []
    | .windows => path.prefixText ≠ [] ∧ path.prefixText.head? ≠ some '/'

namespace StandardizedPath

def asStr (p : StandardizedPath) : Str := p.path.toStr

def startsWith (p base : StandardizedPath) : Prop :=
  p.path.pathType = base.path.pathType ∧ base.path.components <+: p.path.components

def stripSeparator : Str → Str
  | [] => []
  | c :: rest => if c = '/' || c = '\\' then rest else c :: rest

def stripPrefix (p base : StandardizedPath) : Option Str :=
  if base.asStr <+: p.asStr then some (stripSeparator (p.asStr.drop base.asStr.length)) else none

def join (prefixLength : Str → ℕ) (p : StandardizedPath) (segment : Str) : TypedPathBuf :=
  (p.path.push prefixLength segment).normalize

def parent (p : StandardizedPath) : Option StandardizedPath :=
  if p.path.names = [] then none
  else some ⟨{ p.path with names := p.path.names.dropLast }, p.absolute,
    fun name isName => p.normal name ((dropLast_subset _) isName), p.prefixed⟩

end StandardizedPath

section Names

variable {type : PathType} {names more : List Str} {name : Str}

theorem PathType.isSeparator_separator (type : PathType) : type.isSeparator type.separator = true := by
  cases type <;> decide

theorem joined_append (separator : Char) (names : List Str) {more : List Str} (filled : names ≠ []) (filled' : more ≠ []) :
    joined separator (names ++ more) = joined separator names ++ separator :: joined separator more := by
  induction names with
  | nil => exact absurd rfl filled
  | cons name names ih =>
    cases names with
    | nil =>
      obtain ⟨other, others, rfl⟩ := exists_cons_of_ne_nil filled'
      rfl
    | cons other others =>
      have rest := ih (cons_ne_nil other others)
      simp only [cons_append, joined] at rest ⊢
      rw [rest, append_assoc, cons_append]

theorem joined_prefix (separator : Char) (names more : List Str) :
    joined separator names <+: joined separator (names ++ more) := by
  by_cases filled : names = []
  · rw [filled]
    exact nil_prefix
  by_cases filled' : more = []
  · simp [filled']
  · rw [joined_append separator names filled filled']
    exact prefix_append _ _

theorem tail_of_names {separator : Char} {tail : Str}
    (text : joined separator (names ++ more) = joined separator names ++ tail) :
    names = [] ∧ tail = joined separator more ∨
      names ≠ [] ∧ (more = [] ∧ tail = [] ∨ more ≠ [] ∧ tail = separator :: joined separator more) := by
  by_cases root : names = []
  · rw [root] at text
    exact .inl ⟨root, text.symm⟩
  refine .inr ⟨root, ?_⟩
  by_cases none : more = []
  · rw [none, append_nil] at text
    exact .inl ⟨none, List.self_eq_append_right.mp text⟩
  · rw [joined_append _ _ root none] at text
    exact .inr ⟨none, (append_cancel_left text).symm⟩

theorem splitOnP_joined (whole : ∀ name ∈ names, ∀ c ∈ name, type.isSeparator c = false) (filled : names ≠ []) :
    (joined type.separator names).splitOnP type.isSeparator = names := by
  induction names with
  | nil => exact absurd rfl filled
  | cons name names ih =>
    obtain ⟨first, others⟩ := List.forall_mem_cons.mp whole
    cases names with
    | nil => exact splitOnP_eq_singleton first
    | cons other names =>
      rw [joined, splitOnP_append_cons_of_forall_mem first _ type.isSeparator_separator,
        ih others (cons_ne_nil _ _)]
      exact cons_ne_nil _ _

theorem split_separator (text : Str) : type.split (type.separator :: text) = type.split text := by
  simp [PathType.split, splitOnP_cons_eq_if_modifyHead, type.isSeparator_separator]

theorem split_joined (normal : ∀ name ∈ names, type.IsName name) :
    type.split (joined type.separator names) = names := by
  cases names with
  | nil => rfl
  | cons name names =>
    rw [PathType.split, splitOnP_joined (fun name isName => (normal name isName).whole) (cons_ne_nil _ _)]
    exact List.filter_eq_self.mpr fun name isName => by simpa using (normal name isName).filled

theorem prefix_of_joined {tail : Str} (normal : ∀ name ∈ names, type.IsName name) (normal' : ∀ name ∈ more, type.IsName name)
    (text : joined type.separator more = joined type.separator names ++ tail)
    (whole : names = [] ∨ tail = [] ∨ tail.head? = some type.separator) : names <+: more := by
  rcases whole with rfl | rfl | next
  · exact nil_prefix
  · rw [append_nil] at text
    have same := congrArg type.split text
    rw [split_joined normal, split_joined normal'] at same
    exact same ▸ prefix_rfl
  · obtain ⟨rest, rfl⟩ := List.head?_eq_some_iff.mp next
    have split := congrArg type.split text
    rw [split_joined normal', PathType.split, splitOnP_append_cons _ _ type.isSeparator_separator,
      filter_append, ← PathType.split, split_joined normal] at split
    exact ⟨_, split.symm⟩

theorem normalize_names (kept : List Str) (normal : ∀ name ∈ names, type.IsName name) :
    names.foldl TypedPathBuf.normalize.step kept = kept ++ names := by
  induction names generalizing kept with
  | nil => rw [foldl_nil, append_nil]
  | cons name names ih =>
    obtain ⟨first, others⟩ := List.forall_mem_cons.mp normal
    rw [foldl_cons, ih _ others, TypedPathBuf.normalize.step, if_neg first.notCurrent, if_neg first.notParent,
      append_assoc]
    rfl

theorem head_joined (normal : type.IsName name) (more : List Str) :
    ∃ c rest, joined type.separator (name :: more) = c :: rest ∧ name.head? = some c ∧ type.isSeparator c = false := by
  obtain ⟨c, rest, rfl⟩ := exists_cons_of_ne_nil normal.filled
  have first := normal.whole c mem_cons_self
  cases more with
  | nil => exact ⟨c, rest, rfl, rfl, first⟩
  | cons other more => exact ⟨c, _, rfl, rfl, first⟩

end Names

namespace StandardizedPath

variable {p base : StandardizedPath}

theorem asStr_eq (p : StandardizedPath) :
    p.asStr = p.path.prefixText ++ p.path.pathType.separator :: joined p.path.pathType.separator p.path.names := by
  rw [asStr, TypedPathBuf.toStr, if_pos p.absolute]
  rfl

theorem head_asStr (p : StandardizedPath) : p.asStr.head? = some '/' ↔ p.path.pathType = .unix := by
  have prefixed := p.prefixed
  rw [asStr_eq]
  cases type : p.path.pathType with
  | unix =>
    rw [type] at prefixed
    dsimp only at prefixed
    simp [prefixed, PathType.separator]
  | windows =>
    rw [type] at prefixed
    obtain ⟨filled, other⟩ := prefixed
    obtain ⟨c, rest, isText⟩ := exists_cons_of_ne_nil filled
    rw [isText] at other ⊢
    simpa using other

theorem pathType_eq (text : base.asStr <+: p.asStr) : p.path.pathType = base.path.pathType := by
  have filled : base.asStr ≠ [] := by
    rw [asStr_eq]
    simp
  obtain ⟨tail, isText⟩ := text
  have heads : p.asStr.head? = base.asStr.head? := by rw [← isText, List.head?_append_of_ne_nil _ filled]
  have same := (head_asStr p).symm.trans (heads ▸ head_asStr base)
  cases known : base.path.pathType with
  | unix => exact same.mpr known
  | windows =>
    cases other : p.path.pathType with
    | windows => rfl
    | unix => exact absurd (same.mp other) (by rw [known]; nofun)

theorem startsWith_iff : p.startsWith base ↔ p.path.pathType = base.path.pathType ∧
    p.path.prefixText = base.path.prefixText ∧ base.path.names <+: p.path.names := by
  refine and_congr_right fun sameType => ?_
  have prefixed := p.prefixed
  have prefixed' := base.prefixed
  rw [← sameType] at prefixed'
  have injective : Function.Injective TypedPathBuf.Component.normal := fun _ _ same => by cases same; rfl
  unfold TypedPathBuf.components
  rw [p.absolute, base.absolute]
  cases type : p.path.pathType with
  | unix =>
    rw [type] at prefixed prefixed'
    dsimp only at prefixed prefixed'
    simp [prefixed, prefixed', prefix_map_iff_of_injective injective]
  | windows =>
    rw [type] at prefixed prefixed'
    dsimp only at prefixed prefixed'
    simp [prefixed.1, prefixed'.1, prefix_map_iff_of_injective injective, eq_comm]

theorem asStr_append {tail : Str} (sameType : p.path.pathType = base.path.pathType)
    (samePrefix : p.path.prefixText = base.path.prefixText) : p.asStr = base.asStr ++ tail ↔
      joined p.path.pathType.separator p.path.names = joined p.path.pathType.separator base.path.names ++ tail := by
  rw [asStr_eq, asStr_eq, samePrefix, sameType]
  simp

def startsDrive : Str → Bool
  | c :: d :: _ => c.isAlpha && d = ':'
  | _ => false

/-- A segment that starts with no separator has a prefix where it starts with a drive. -/
def Drives (prefixLength : Str → ℕ) : Prop :=
  ∀ segment : Str, segment.head?.any PathType.windows.isSeparator = false →
    prefixLength segment = if startsDrive segment then 2 else 0

/-- The name is read again where it comes first in what is left of a path behind the base. -/
def Rejoins (base : StandardizedPath) (name : Str) : Prop :=
  match base.path.pathType with
  | .unix => base.path.names = [] → name.head? ≠ some '\\'
  | .windows => startsDrive name = false

variable {prefixLength : Str → ℕ} {rest more : List Str} {name : Str}

theorem rooted_joined (normal : ∀ name ∈ rest, base.path.pathType.IsName name) :
    (joined base.path.pathType.separator rest).head?.any base.path.pathType.isSeparator = false := by
  cases rest with
  | nil => rfl
  | cons name more =>
    obtain ⟨c, text, isText, -, plain⟩ := head_joined (normal name mem_cons_self) more
    rw [isText]
    exact plain

theorem join_joined (normal : ∀ name ∈ rest, base.path.pathType.IsName name)
    (plain : base.path.pathType = .windows → prefixLength (joined base.path.pathType.separator rest) = 0) :
    base.join prefixLength (joined base.path.pathType.separator rest) =
      { base.path with names := base.path.names ++ rest } := by
  have rooted := rooted_joined normal
  have split := split_joined normal
  have pushed : base.path.push prefixLength (joined base.path.pathType.separator rest) =
      { base.path with names := base.path.names ++ rest } := by
    unfold TypedPathBuf.push
    rw [rooted]
    cases type : base.path.pathType with
    | unix =>
      rw [type] at split
      simp [split, type]
    | windows =>
      rw [type] at split plain
      simp [split, plain rfl, type]
  rw [join, pushed, TypedPathBuf.normalize, normalize_names [] (List.forall_mem_append.mpr ⟨base.normal, normal⟩)]
  rfl

theorem startsDrive_joined (normal : ∀ n ∈ name :: more, PathType.windows.IsName n) :
    startsDrive (joined '\\' (name :: more)) = startsDrive name := by
  obtain ⟨c, text, rfl⟩ := exists_cons_of_ne_nil (normal name mem_cons_self).filled
  cases more with
  | nil => rfl
  | cons other more =>
    cases text with
    | nil => simp [joined, startsDrive]
    | cons d text => rfl

/-- A drive takes the place of the base: the name that starts with it is lost, or the root. -/
theorem join_drive (drives : Drives prefixLength) (type : base.path.pathType = .windows)
    (normal : ∀ n ∈ name :: more, PathType.windows.IsName n) (drive : startsDrive name = true) :
    let q := base.join prefixLength (joined '\\' (name :: more))
    q.hasRoot = false ∨ q.names = more := by
  obtain ⟨first, rest⟩ := List.forall_mem_cons.mp normal
  obtain ⟨c, d, text, rfl⟩ : ∃ c d text, name = c :: d :: text := by
    match name, drive with
    | c :: d :: text, _ => exact ⟨c, d, text, rfl⟩
  have length : prefixLength (joined '\\' ((c :: d :: text) :: more)) = 2 := by
    obtain ⟨c', text', isText, isHead, plain⟩ := head_joined first more
    rw [drives _ (by rw [show joined '\\' ((c :: d :: text) :: more) = c' :: text' from isText]; exact plain),
      startsDrive_joined normal, drive]
    rfl
  dsimp only
  unfold join TypedPathBuf.push
  rw [type]
  dsimp only
  rw [length, if_pos (show 2 ≠ 0 by decide), TypedPathBuf.normalize]
  cases text with
  | cons e text =>
    have plain := first.whole e (by simp)
    cases more <;> exact .inl (by simpa [joined] using plain)
  | nil =>
    cases more with
    | nil => exact .inl rfl
    | cons other more =>
      right
      have split := split_joined rest
      show (PathType.windows.split (PathType.windows.separator :: joined '\\' (other :: more))).foldl _ [] = _
      rw [split_separator, show '\\' = PathType.windows.separator from rfl, split, normalize_names [] rest]
      rfl

/-- A backslash at the start of the first name below a Unix root is taken for a separator. -/
theorem join_backslash (prefixLength : Str → ℕ) {text : Str} (type : base.path.pathType = .unix) (root : base.path.names = [])
    (normal : ∀ name ∈ ('\\' :: text) :: more, PathType.unix.IsName name) :
    (base.join prefixLength (joined '/' (text :: more))).names ≠ ('\\' :: text) :: more := by
  obtain ⟨first, rest⟩ := List.forall_mem_cons.mp normal
  have whole : ∀ name ∈ text :: more, ∀ c ∈ name, PathType.unix.isSeparator c = false :=
    List.forall_mem_cons.mpr
      ⟨fun c isChar => first.whole c (mem_cons_of_mem _ isChar), fun name isName => (rest name isName).whole⟩
  have split : (joined '/' (text :: more)).splitOnP PathType.unix.isSeparator = text :: more :=
    splitOnP_joined whole (cons_ne_nil _ _)
  have names : (base.join prefixLength (joined '/' (text :: more))).names =
      (PathType.unix.split (joined '/' (text :: more))).foldl TypedPathBuf.normalize.step [] := by
    unfold join TypedPathBuf.push
    rw [type]
    dsimp only
    split <;> simp [TypedPathBuf.normalize, root]
  have filled : more.filter (· ≠ []) = more :=
    List.filter_eq_self.mpr fun name isName => by simpa using (rest name isName).filled
  rw [names, PathType.split, split]
  intro same
  have kept : more = ('\\' :: text) :: more ∨ text :: more = ('\\' :: text) :: more := by
    rw [filter_cons, filled] at same
    by_cases isEmpty : text = []
    · simp [isEmpty, normalize_names [] rest] at same
    · simp only [ne_eq, isEmpty, not_false_eq_true, decide_true, if_true, foldl_cons] at same
      rw [normalize_names _ rest, TypedPathBuf.normalize.step] at same
      split_ifs at same
      · exact .inl same
      · exact .inl same
      · exact .inr same
  rcases kept with same | same
  · simpa using congrArg List.length same
  · simpa using congrArg List.length (List.cons.inj same).1

/-- A base in front of a path is stripped and joined again where the path goes on behind it at a separator, with a name
that is read as it was. -/
def StripsBack (p base : StandardizedPath) : Prop :=
  ∀ tail, p.asStr = base.asStr ++ tail →
    p.path.prefixText = base.path.prefixText ∧
    (base.path.names = [] ∨ tail = [] ∨ tail.head? = some p.path.pathType.separator) ∧
    ∀ name ∈ (p.path.names.drop base.path.names.length).head?, base.Rejoins name

structure PrefixLaw (prefixLength : Str → ℕ) (p base : StandardizedPath) : Prop where
  strips : (∃ r, p.stripPrefix base = some r) ↔ p.startsWith base
  joins : p.startsWith base → ∀ r, p.stripPrefix base = some r → base.join prefixLength r = p.path

structure Covers (p base : StandardizedPath) : Prop where
  startsWith : p.startsWith base
  other : p ≠ base
  nothing : ∀ q, p.startsWith q → q.startsWith base → q = p ∨ q = base

theorem joins_iff (drives : Drives prefixLength) (sameType : p.path.pathType = base.path.pathType)
    (samePrefix : p.path.prefixText = base.path.prefixText) {rest : List Str}
    (names : p.path.names = base.path.names ++ rest) {tail : Str}
    (text : joined p.path.pathType.separator p.path.names = joined p.path.pathType.separator base.path.names ++ tail) :
    base.join prefixLength (stripSeparator tail) = p.path ↔ ∀ name ∈ rest.head?, base.Rejoins name := by
  have isPath : p.path = { base.path with names := base.path.names ++ rest } :=
    TypedPathBuf.ext sameType samePrefix (p.absolute.trans base.absolute.symm) names
  have normal : ∀ name ∈ rest, base.path.pathType.IsName name := fun name isName => by
    rw [← sameType]
    exact p.normal name (names ▸ mem_append_right _ isName)
  have left := tail_of_names (sameType ▸ names ▸ text)
  have separates : ∀ text, stripSeparator (base.path.pathType.separator :: text) = text := by
    intro text
    cases base.path.pathType <;> rfl
  -- A name behind the separator, or at the root, is left as it is.
  have asIs : stripSeparator tail = joined base.path.pathType.separator rest →
      (base.join prefixLength (stripSeparator tail) = p.path ↔
        ∀ name ∈ rest.head?, base.path.pathType = .windows → startsDrive name = false) := by
    intro isRest
    rw [isRest, isPath]
    constructor
    · rintro joins name isFirst type
      by_contra drive
      obtain ⟨more, rfl⟩ := List.head?_eq_some_iff.mp isFirst
      rw [type] at normal
      have lost := join_drive drives type normal (by simpa using drive)
      rw [type] at joins
      rw [show PathType.windows.separator = '\\' from rfl] at joins
      dsimp only at lost
      rw [joins] at lost
      rcases lost with unrooted | shorter
      · exact absurd (base.absolute.symm.trans unrooted) nofun
      · have short := congrArg List.length shorter
        simp at short
        omega
    · intro plain
      refine join_joined normal fun type => ?_
      rw [drives _ (by rw [← type]; exact rooted_joined normal)]
      cases rest with
      | nil => rfl
      | cons name more =>
        rw [type] at normal ⊢
        rw [show PathType.windows.separator = '\\' from rfl, startsDrive_joined normal, plain name rfl type]
        rfl
  have kept : ∀ rest, (∀ name ∈ rest, base.path.pathType.IsName name) →
      (base.path.pathType = .windows ∨ ∀ name ∈ rest.head?, name.head? ≠ some '\\') →
      stripSeparator (joined base.path.pathType.separator rest) = joined base.path.pathType.separator rest := by
    intro rest normal plain
    cases rest with
    | nil => rfl
    | cons name more =>
      obtain ⟨c, text, isText, isHead, plain'⟩ := head_joined (normal name mem_cons_self) more
      rw [isText, stripSeparator, if_neg]
      revert plain'
      rcases plain with type | plain
      · rw [type]
        simp [PathType.isSeparator]
      · have other := plain name rfl
        rw [isHead] at other
        cases base.path.pathType <;> simp_all [PathType.isSeparator]
  have isRest : base.path.names ≠ [] → stripSeparator tail = joined base.path.pathType.separator rest := by
    intro below
    rcases left with ⟨root, -⟩ | ⟨-, ⟨rfl, rfl⟩ | ⟨-, rfl⟩⟩
    · exact absurd root below
    · rfl
    · exact separates _
  have isRest' : base.path.names = [] → tail = joined base.path.pathType.separator rest := by
    intro root
    rcases left with ⟨-, isTail⟩ | ⟨below, -⟩
    · exact isTail
    · exact absurd root below
  unfold Rejoins
  cases type : base.path.pathType with
  | windows =>
    have whole : stripSeparator tail = joined base.path.pathType.separator rest := by
      by_cases root : base.path.names = []
      · rw [isRest' root, kept rest normal (.inl type)]
      · exact isRest root
    exact (asIs whole).trans (forall₂_congr fun _ _ => ⟨fun plain => plain type, fun plain _ => plain⟩)
  | unix =>
    have always : stripSeparator tail = joined base.path.pathType.separator rest →
        base.join prefixLength (stripSeparator tail) = p.path :=
      fun whole => (asIs whole).mpr fun _ _ windows => absurd (type.symm.trans windows) nofun
    by_cases root : base.path.names = []
    · by_cases plain : ∀ name ∈ rest.head?, name.head? ≠ some '\\'
      · refine iff_of_true (always ?_) fun name isFirst _ => plain name isFirst
        rw [isRest' root, kept rest normal (.inr plain)]
      · refine iff_of_false ?_ fun all => plain fun name isFirst => all name isFirst root
        push Not at plain
        obtain ⟨name, isFirst, starts⟩ := plain
        obtain ⟨more, rfl⟩ := List.head?_eq_some_iff.mp isFirst
        obtain ⟨text, rfl⟩ := List.head?_eq_some_iff.mp starts
        have isTail := isRest' root
        rw [type] at normal isTail
        have stripped : stripSeparator tail = joined '/' (text :: more) := by
          rw [isTail]
          cases more <;> rfl
        rw [stripped, isPath]
        intro same
        refine join_backslash prefixLength type root normal ?_
        rw [same, root]
        rfl
    · exact iff_of_true (always (isRest root)) fun _ _ root' => absurd root' root

theorem eq_of_names (sameType : p.path.pathType = base.path.pathType)
    (samePrefix : p.path.prefixText = base.path.prefixText) (names : p.path.names = base.path.names) : p = base :=
  StandardizedPath.ext (TypedPathBuf.ext sameType samePrefix (p.absolute.trans base.absolute.symm) names)

theorem prefixLaw_iff (drives : Drives prefixLength) (p base : StandardizedPath) :
    PrefixLaw prefixLength p base ↔ p.StripsBack base := by
  by_cases isTail : ∃ tail, base.asStr ++ tail = p.asStr
  · obtain ⟨tail, isText⟩ := isTail
    have stripped : p.stripPrefix base = some (stripSeparator tail) := by
      rw [stripPrefix, if_pos ⟨tail, isText⟩, ← isText, drop_left]
    have sameType := pathType_eq ⟨tail, isText⟩
    by_cases samePrefix : p.path.prefixText = base.path.prefixText
    · have text := (asStr_append sameType samePrefix).mp isText.symm
      by_cases whole : base.path.names = [] ∨ tail = [] ∨ tail.head? = some p.path.pathType.separator
      · obtain ⟨rest, names⟩ := prefix_of_joined (sameType ▸ base.normal) p.normal text whole
        have starts := startsWith_iff.mpr ⟨sameType, samePrefix, rest, names⟩
        have joins := joins_iff drives sameType samePrefix names.symm text
        have isRest : p.path.names.drop base.path.names.length = rest := by rw [← names, drop_left]
        unfold StripsBack
        rw [isRest, ← joins]
        constructor
        · intro law tail' isText'
          obtain rfl := append_cancel_left (isText.trans isText')
          exact ⟨samePrefix, whole, law.joins starts _ stripped⟩
        · intro back
          refine ⟨⟨fun _ => starts, fun _ => ⟨_, stripped⟩⟩, fun _ r isR => ?_⟩
          obtain rfl := Option.some.inj (stripped.symm.trans isR)
          exact (back tail isText.symm).2.2
      · refine iff_of_false (fun law => whole ?_) fun back => whole (back tail isText.symm).2.1
        obtain ⟨-, -, rest, names⟩ := startsWith_iff.mp (law.strips.mp ⟨_, stripped⟩)
        rcases tail_of_names (names.symm ▸ text) with ⟨root, -⟩ | ⟨-, ⟨-, ends⟩ | ⟨-, goesOn⟩⟩
        · exact .inl root
        · exact .inr (.inl ends)
        · exact .inr (.inr (by rw [goesOn]; rfl))
    · exact iff_of_false (fun law => samePrefix (startsWith_iff.mp (law.strips.mp ⟨_, stripped⟩)).2.1)
        fun back => samePrefix (back tail isText.symm).1
  · have never : ¬ p.startsWith base := by
      intro starts
      obtain ⟨sameType, samePrefix, rest, names⟩ := startsWith_iff.mp starts
      obtain ⟨tail, text⟩ := joined_prefix p.path.pathType.separator base.path.names rest
      exact isTail ⟨tail, ((asStr_append sameType samePrefix).mpr (by rw [text, names])).symm⟩
    refine iff_of_true ⟨⟨?_, fun starts => absurd starts never⟩, fun starts => absurd starts never⟩
      fun tail isText => absurd ⟨tail, isText.symm⟩ isTail
    rintro ⟨r, stripped⟩
    rw [stripPrefix, if_neg (show ¬ base.asStr <+: p.asStr from isTail)] at stripped
    cases stripped

theorem covers_iff (p base : StandardizedPath) : p.Covers base ↔ p.parent = some base := by
  have above : ∀ q, p.parent = some q ↔ p.path.names ≠ [] ∧ q.path.pathType = p.path.pathType ∧
      q.path.prefixText = p.path.prefixText ∧ q.path.names = p.path.names.dropLast := by
    intro q
    unfold parent
    split
    · rename_i root
      exact iff_of_false nofun fun all => all.1 root
    · rename_i below
      constructor
      · rintro same
        cases same
        exact ⟨below, rfl, rfl, rfl⟩
      · rintro ⟨-, sameType, samePrefix, names⟩
        exact congrArg some (StandardizedPath.ext
          (TypedPathBuf.ext sameType.symm samePrefix.symm (p.absolute.trans q.absolute.symm) names.symm))
  constructor
  · rintro ⟨starts, other, nothing⟩
    obtain ⟨sameType, samePrefix, rest, names⟩ := startsWith_iff.mp starts
    have more : rest ≠ [] := by
      rintro rfl
      rw [append_nil] at names
      exact other (eq_of_names sameType samePrefix names.symm)
    have below : p.path.names ≠ [] := by
      rw [← names]
      exact append_ne_nil_of_right_ne_nil _ more
    obtain ⟨q, isParent⟩ : ∃ q, p.parent = some q := by
      unfold parent
      rw [if_neg below]
      exact ⟨_, rfl⟩
    obtain ⟨-, sameType', samePrefix', names'⟩ := (above q).mp isParent
    have between := nothing q (startsWith_iff.mpr ⟨sameType'.symm, samePrefix'.symm, names' ▸ dropLast_prefix _⟩)
      (startsWith_iff.mpr ⟨sameType'.trans sameType, samePrefix'.trans samePrefix, rest.dropLast, by
        rw [names', ← names, dropLast_append_of_ne_nil more]⟩)
    rcases between with rfl | rfl
    · have shorter := congrArg List.length names'
      have filled := List.length_pos_iff.mpr below
      rw [length_dropLast] at shorter
      omega
    · exact isParent
  · intro isParent
    obtain ⟨below, sameType, samePrefix, names⟩ := (above base).mp isParent
    have filled := List.length_pos_iff.mpr below
    refine ⟨startsWith_iff.mpr ⟨sameType.symm, samePrefix.symm, names ▸ dropLast_prefix _⟩, ?_, fun q first second => ?_⟩
    · rintro rfl
      have shorter := congrArg List.length names
      rw [length_dropLast] at shorter
      omega
    · obtain ⟨sameType', samePrefix', within⟩ := startsWith_iff.mp first
      obtain ⟨sameType'', samePrefix'', within'⟩ := startsWith_iff.mp second
      have shorter := congrArg List.length names
      rw [length_dropLast] at shorter
      have lower := within'.length_le
      have upper := within.length_le
      by_cases whole : q.path.names.length = p.path.names.length
      · exact .inl (eq_of_names sameType'.symm samePrefix'.symm (within.eq_of_length whole))
      · exact .inr (eq_of_names sameType'' samePrefix'' (within'.eq_of_length (by omega)).symm)

def driveLength (segment : Str) : ℕ := if startsDrive segment then 2 else 0

def unixPath (names : List Str) (normal : ∀ name ∈ names, PathType.unix.IsName name) : StandardizedPath :=
  ⟨⟨.unix, [], true, names⟩, rfl, normal, rfl⟩

theorem isName_letter {c : Char} {text : Str} (first : c ≠ '.') (whole : '/' ∉ c :: text) :
    PathType.unix.IsName (c :: text) :=
  ⟨cons_ne_nil _ _, by simp [first], by simp [first], fun d isChar => by
    simpa [PathType.isSeparator] using fun slash : d = '/' => whole (slash ▸ isChar)⟩

def foo : StandardizedPath := unixPath [['f', 'o', 'o']] (by simpa using isName_letter (by simp) (by simp))

def fooBar : StandardizedPath := unixPath [['f', 'o', 'o'], ['b']]
  (by simpa using ⟨isName_letter (by simp) (by simp), isName_letter (by simp) (by simp)⟩)

def foobar : StandardizedPath := unixPath [['f', 'o', 'o', 'b']] (by simpa using isName_letter (by simp) (by simp))

end StandardizedPath

end Warp.Util
