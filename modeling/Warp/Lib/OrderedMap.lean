import Mathlib.Tactic

namespace Warp

open List

universe u v

structure OrderedMap (K : Type u) (V : Type v) [LinearOrder K] where
  entries : List (K × V)
  sorted : entries.Pairwise fun a b => a.1 < b.1

namespace OrderedMap

variable {K : Type u} {V : Type v} [LinearOrder K]

def empty : OrderedMap K V := ⟨[], .nil⟩

def insertEntry (key : K) (value : V) : List (K × V) → List (K × V)
  | [] => [(key, value)]
  | entry :: rest =>
    if key < entry.1 then (key, value) :: entry :: rest
    else if key = entry.1 then (key, value) :: rest
    else entry :: insertEntry key value rest

variable {entries : List (K × V)}

theorem mem_insertEntry {key : K} {value : V} (sorted : entries.Pairwise fun a b => a.1 < b.1) {entry : K × V} :
    entry ∈ insertEntry key value entries ↔ entry = (key, value) ∨ entry ∈ entries ∧ entry.1 ≠ key := by
  induction entries with
  | nil => simp [insertEntry]
  | cons first rest ih =>
    have later : ∀ other ∈ rest, first.1 < other.1 := (List.pairwise_cons.mp sorted).1
    have inRest := ih sorted.of_cons
    unfold insertEntry
    by_cases below : key < first.1
    · have absent : ∀ other ∈ first :: rest, other.1 ≠ key := by
        intro other member
        rcases List.mem_cons.mp member with rfl | member
        · exact ne_of_gt below
        · exact ne_of_gt (lt_trans below (later other member))
      rw [if_pos below, mem_cons]
      grind
    · by_cases same : key = first.1
      · rw [if_neg below, if_pos same, mem_cons, mem_cons]
        grind
      · rw [if_neg below, if_neg same, mem_cons, mem_cons]
        grind

theorem insertEntry_sorted {key : K} {value : V} (sorted : entries.Pairwise fun a b => a.1 < b.1) :
    (insertEntry key value entries).Pairwise fun a b => a.1 < b.1 := by
  induction entries with
  | nil => simp [insertEntry]
  | cons first rest ih =>
    have later : ∀ other ∈ rest, first.1 < other.1 := (List.pairwise_cons.mp sorted).1
    unfold insertEntry
    by_cases below : key < first.1
    · rw [if_pos below]
      refine .cons ?_ sorted
      intro other member
      rcases List.mem_cons.mp member with rfl | member
      · exact below
      · exact lt_trans below (later other member)
    · by_cases same : key = first.1
      · rw [if_neg below, if_pos same]
        refine .cons ?_ sorted.of_cons
        intro other member
        exact same ▸ later other member
      · rw [if_neg below, if_neg same]
        refine .cons ?_ (ih sorted.of_cons)
        intro other member
        rcases (mem_insertEntry sorted.of_cons).mp member with rfl | ⟨member, -⟩
        · exact lt_of_le_of_ne (not_lt.mp below) (Ne.symm same)
        · exact later other member

def insert (map : OrderedMap K V) (key : K) (value : V) : OrderedMap K V :=
  ⟨insertEntry key value map.entries, insertEntry_sorted map.sorted⟩

def splitOff (map : OrderedMap K V) (key : K) : OrderedMap K V × OrderedMap K V :=
  (⟨map.entries.filter fun entry => entry.1 < key, map.sorted.filter _⟩,
    ⟨map.entries.filter fun entry => key ≤ entry.1, map.sorted.filter _⟩)

def dropWhile (map : OrderedMap K V) (p : K → Bool) : OrderedMap K V :=
  ⟨map.entries.dropWhile fun entry => p entry.1, map.sorted.sublist (dropWhile_sublist _)⟩

def get (map : OrderedMap K V) (key : K) : Option V := (map.entries.find? fun entry => entry.1 = key).map Prod.snd

def first (map : OrderedMap K V) : Option (K × V) := map.entries.head?

def last (map : OrderedMap K V) : Option (K × V) := map.entries.getLast?

def ceiling (map : OrderedMap K V) (key : K) : Option (K × V) := map.entries.find? fun entry => key ≤ entry.1

section Lemmas

variable (map : OrderedMap K V) (key : K)

variable {entry : K × V} {value : V}

theorem mem_insert :
    entry ∈ (map.insert key value).entries ↔ entry = (key, value) ∨ entry ∈ map.entries ∧ entry.1 ≠ key :=
  mem_insertEntry map.sorted

theorem insert_last {value : V} (past : ∀ entry ∈ map.entries, entry.1 < key) :
    (map.insert key value).entries = map.entries ++ [(key, value)] := by
  obtain ⟨entries, sorted⟩ := map
  unfold insert
  induction entries with
  | nil => rfl
  | cons first rest ih =>
    have before : first.1 < key := past first mem_cons_self
    have inRest := ih sorted.of_cons fun entry member => past entry (mem_cons_of_mem _ member)
    have goesOn : insertEntry key value (first :: rest) = first :: insertEntry key value rest := by
      rw [insertEntry, if_neg (not_lt_of_gt before), if_neg (ne_of_gt before)]
    rw [cons_append, ← inRest]
    exact goesOn

@[simp] theorem mem_splitOff_below :
    entry ∈ (map.splitOff key).1.entries ↔ entry ∈ map.entries ∧ entry.1 < key := by
  simp [splitOff]

@[simp] theorem mem_splitOff_above :
    entry ∈ (map.splitOff key).2.entries ↔ entry ∈ map.entries ∧ key ≤ entry.1 := by
  simp [splitOff]

theorem splitOff_append {before after : List (K × V)} (parts : map.entries = before ++ after)
    (below : ∀ entry ∈ before, entry.1 < key) (above : ∀ entry ∈ after, key ≤ entry.1) :
    (map.splitOff key).1.entries = before ∧ (map.splitOff key).2.entries = after := by
  have left : map.entries.filter (fun entry => entry.1 < key) = before := by
    rw [parts, filter_append, List.filter_eq_self.mpr, List.filter_eq_nil_iff.mpr, append_nil]
    · intro entry member
      simpa using above entry member
    · intro entry member
      simpa using below entry member
  have right : map.entries.filter (fun entry => key ≤ entry.1) = after := by
    rw [parts, filter_append, List.filter_eq_nil_iff.mpr, List.filter_eq_self.mpr, nil_append]
    · intro entry member
      simpa using above entry member
    · intro entry member
      simpa using below entry member
  exact ⟨left, right⟩

theorem first_splitOff : (map.splitOff key).2.first = map.ceiling key := by
  simp [splitOff, first, ceiling]

variable {map key}

theorem ceiling_eq_none : map.ceiling key = none ↔ ∀ entry ∈ map.entries, entry.1 < key := by
  simp [ceiling]

theorem find_sorted {entries : List (K × V)} (sorted : entries.Pairwise fun a b => a.1 < b.1) :
    entries.find? (fun entry => key ≤ entry.1) = some entry ↔
      entry ∈ entries ∧ key ≤ entry.1 ∧ ∀ other ∈ entries, key ≤ other.1 → entry.1 ≤ other.1 := by
  induction entries with
  | nil => simp
  | cons first rest ih =>
    obtain ⟨later, restSorted⟩ := List.pairwise_cons.mp sorted
    by_cases reached : key ≤ first.1
    · rw [List.find?_cons_of_pos (by simpa using reached), Option.some_inj]
      constructor
      · intro same
        subst same
        refine ⟨mem_cons_self, reached, ?_⟩
        intro other member _
        rcases List.mem_cons.mp member with rfl | member
        · exact le_refl _
        · exact le_of_lt (later other member)
      · intro found
        obtain ⟨member, -, least⟩ := found
        rcases List.mem_cons.mp member with rfl | member
        · rfl
        · exact absurd (least first mem_cons_self reached) (not_le_of_gt (later entry member))
    · rw [List.find?_cons_of_neg (by simpa using reached), ih restSorted]
      grind

theorem ceiling_eq_some :
    map.ceiling key = some entry ↔
      entry ∈ map.entries ∧ key ≤ entry.1 ∧ ∀ other ∈ map.entries, key ≤ other.1 → entry.1 ≤ other.1 :=
  find_sorted map.sorted

theorem eq_of_key {a b : K × V} (left : a ∈ map.entries) (right : b ∈ map.entries) (same : a.1 = b.1) : a = b := by
  have found : ∀ entry ∈ map.entries, entry.1 = a.1 → map.ceiling a.1 = some entry := by
    intro entry member at_key
    exact ceiling_eq_some.mpr ⟨member, le_of_eq at_key.symm, fun other _ le => at_key ▸ le⟩
  have both := (found a left rfl).symm.trans (found b right same.symm)
  exact Option.some_inj.mp both

theorem get_eq_some (member : (key, value) ∈ map.entries) : map.get key = some value := by
  unfold get
  cases found : map.entries.find? fun entry => entry.1 = key with
  | none =>
    have absent := List.find?_eq_none.mp found _ member
    simp at absent
  | some entry =>
    have same : entry.1 = key := by simpa using List.find?_some found
    rw [eq_of_key (mem_of_find?_eq_some found) member same]
    rfl

theorem get_eq_some_iff : map.get key = some value ↔ (key, value) ∈ map.entries := by
  constructor
  · intro found
    obtain ⟨⟨other, stored⟩, isFound, rfl⟩ := Option.map_eq_some_iff.mp found
    have same : other = key := by simpa using List.find?_some isFound
    exact same ▸ mem_of_find?_eq_some isFound
  · exact get_eq_some

@[simp] theorem get_insert {other : K} :
    (map.insert key value).get other = if other = key then some value else map.get other := by
  ext found
  rw [get_eq_some_iff, mem_insert]
  by_cases same : other = key
  · rw [if_pos same]
    simp [same, eq_comm]
  · rw [if_neg same, get_eq_some_iff]
    simp [same]

end Lemmas

theorem ext_of_mem {a b : List (K × V)} (left : a.Pairwise fun x y => x.1 < y.1) (right : b.Pairwise fun x y => x.1 < y.1)
    (same : ∀ entry, entry ∈ a ↔ entry ∈ b) : a = b := by
  have antisymm : Std.Antisymm fun x y : K × V => x.1 < y.1 := ⟨fun _ _ below above => absurd below (lt_asymm above)⟩
  have irrefl : Std.Irrefl fun x y : K × V => x.1 < y.1 := ⟨fun _ => lt_irrefl _⟩
  exact left.eq_of_mem_iff right same

theorem insertEntry_map {W : Type v} (f : V → W) (key : K) (value : V) (entries : List (K × V)) :
    (insertEntry key value entries).map (fun entry => (entry.1, f entry.2)) =
      insertEntry key (f value) (entries.map fun entry => (entry.1, f entry.2)) := by
  induction entries with
  | nil => rfl
  | cons first rest ih =>
    rw [map_cons]
    unfold insertEntry
    dsimp only
    split_ifs
    · rfl
    · rfl
    · rw [map_cons, ih]

end OrderedMap

end Warp
