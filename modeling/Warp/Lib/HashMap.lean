import Warp.Lib.BiMap

namespace Warp

open List Option

universe u v

/-- A finite map. Its iteration order, unspecified in the source, is that of the entries. -/
structure HashMap (α : Type u) (β : Type v) where
  entries : List (α × β)
  distinct : (entries.map Prod.fst).Nodup

structure HashSet (α : Type u) where
  elems : List α
  distinct : elems.Nodup

namespace HashMap

variable {α : Type u} {β : Type v} [DecidableEq α]

def empty : HashMap α β := ⟨[], nodup_nil⟩

def get? (self : HashMap α β) (key : α) : Option β := (self.entries.find? fun entry => entry.1 = key).map Prod.snd

def keys (self : HashMap α β) : List α := self.entries.map Prod.fst

def remove (self : HashMap α β) (key : α) : HashMap α β :=
  ⟨self.entries.filter fun entry => entry.1 ≠ key, self.distinct.sublist (List.filter_sublist.map _)⟩

def insert (self : HashMap α β) (key : α) (value : β) : HashMap α β where
  entries := (self.remove key).entries ++ [(key, value)]
  distinct := by
    rw [map_append, map_singleton]
    apply List.Nodup.append (remove _ _).distinct (nodup_singleton _)
    intro other member same
    obtain ⟨entry, kept, rfl⟩ := List.mem_map.mp member
    have distinct := (List.mem_filter.mp kept).2
    simp only [decide_eq_true_eq] at distinct
    exact distinct (List.mem_singleton.mp same)

def retain (self : HashMap α β) (p : α → β → Bool) : HashMap α β :=
  ⟨self.entries.filter fun entry => p entry.1 entry.2, self.distinct.sublist (List.filter_sublist.map _)⟩

def mapValues (self : HashMap α β) (f : β → β) : HashMap α β where
  entries := self.entries.map fun entry => (entry.1, f entry.2)
  distinct := by
    rw [List.map_map]
    exact self.distinct

def retainMap (self : HashMap α β) (f : β → Option β) : HashMap α β where
  entries := self.entries.filterMap fun entry => (f entry.2).map fun value => (entry.1, value)
  distinct := by
    refine List.Nodup.sublist ?_ self.distinct
    induction self.entries with
    | nil => exact .slnil
    | cons entry entries ih =>
      cases new : f entry.2 with
      | none =>
        rw [filterMap_cons, new]
        exact .cons _ ih
      | some value =>
        rw [filterMap_cons, new]
        exact .cons_cons _ ih

variable {key : α} {self : HashMap α β} {value : β}

theorem get?_eq_some_iff :
    self.get? key = some value ↔ (key, value) ∈ self.entries := by
  unfold get?
  rw [map_eq_some_iff]
  constructor
  · rintro ⟨⟨other, found⟩, isFound, rfl⟩
    obtain ⟨member, same⟩ := (BiMap.find?_key_eq_some_iff self.distinct).mp isFound
    subst same
    exact member
  · intro member
    exact ⟨_, (BiMap.find?_key_eq_some_iff self.distinct).mpr ⟨member, rfl⟩, rfl⟩

theorem get?_isSome_iff : (self.get? key).isSome = true ↔ key ∈ self.keys := by
  unfold keys
  rw [isSome_iff_exists, List.mem_map]
  constructor
  · rintro ⟨value, found⟩
    exact ⟨_, get?_eq_some_iff.mp found, rfl⟩
  · rintro ⟨⟨other, value⟩, member, rfl⟩
    exact ⟨value, get?_eq_some_iff.mpr member⟩

@[simp] theorem get?_empty (key : α) : (empty : HashMap α β).get? key = none := rfl

theorem get?_remove (self : HashMap α β) (key other : α) :
    (self.remove key).get? other = if other = key then none else self.get? other := by
  ext value
  by_cases same : other = key
  · subst same
    rw [if_pos rfl, get?_eq_some_iff]
    unfold remove
    simp
  · rw [if_neg same, get?_eq_some_iff, get?_eq_some_iff]
    unfold remove
    rw [List.mem_filter]
    exact and_iff_left (decide_eq_true same)

theorem get?_insert (self : HashMap α β) (key other : α) (value : β) :
    (self.insert key value).get? other = if other = key then some value else self.get? other := by
  ext found
  rw [get?_eq_some_iff]
  unfold insert
  rw [mem_append, mem_singleton, ← get?_eq_some_iff, get?_remove, Prod.mk.injEq]
  by_cases same : other = key
  · rw [if_pos same, if_pos same]
    simp [same, eq_comm]
  · rw [if_neg same, if_neg same]
    simp [same]

theorem get?_retain (self : HashMap α β) (p : α → β → Bool) (key : α) :
    (self.retain p).get? key = (self.get? key).filter (p key) := by
  ext value
  rw [filter_eq_some_iff, get?_eq_some_iff, get?_eq_some_iff]
  unfold retain
  rw [List.mem_filter]

theorem get?_mapValues (self : HashMap α β) (f : β → β) (key : α) :
    (self.mapValues f).get? key = (self.get? key).map f := by
  ext value
  rw [map_eq_some_iff, get?_eq_some_iff]
  unfold mapValues
  rw [List.mem_map]
  constructor
  · rintro ⟨⟨other, old⟩, member, same⟩
    cases same
    exact ⟨old, get?_eq_some_iff.mpr member, rfl⟩
  · rintro ⟨old, found, rfl⟩
    exact ⟨(key, old), get?_eq_some_iff.mp found, rfl⟩

theorem get?_retainMap (self : HashMap α β) (f : β → Option β) (key : α) :
    (self.retainMap f).get? key = (self.get? key).bind f := by
  ext value
  rw [bind_eq_some_iff, get?_eq_some_iff]
  unfold retainMap
  rw [mem_filterMap]
  constructor
  · rintro ⟨⟨other, old⟩, member, new⟩
    obtain ⟨found, new, same⟩ := Option.map_eq_some_iff.mp new
    cases same
    exact ⟨old, get?_eq_some_iff.mpr member, new⟩
  · rintro ⟨old, found, new⟩
    exact ⟨(key, old), get?_eq_some_iff.mp found, Option.map_eq_some_iff.mpr ⟨value, new, rfl⟩⟩

theorem filter_key_eq (found : self.get? key = some value) :
    self.entries.filter (fun entry => decide (entry.1 = key)) = [(key, value)] := by
  have member := get?_eq_some_iff.mp found
  have distinct := self.distinct
  rcases append_of_mem member with ⟨before, after, split⟩
  rw [split, map_append, map_cons, nodup_append, nodup_cons] at distinct
  rcases distinct with ⟨-, ⟨notAfter, -⟩, apart⟩
  rw [split, filter_append, filter_cons, decide_eq_true rfl, if_pos rfl]
  have nothingBefore : before.filter (fun entry => decide (entry.1 = key)) = [] := by
    apply List.filter_eq_nil_iff.mpr
    intro entry inBefore same
    rw [decide_eq_true_eq] at same
    exact apart entry.1 (List.mem_map_of_mem inBefore) key mem_cons_self same
  have nothingAfter : after.filter (fun entry => decide (entry.1 = key)) = [] := by
    apply List.filter_eq_nil_iff.mpr
    intro entry inAfter same
    rw [decide_eq_true_eq] at same
    exact notAfter (List.mem_map.mpr ⟨entry, inAfter, same⟩)
  rw [nothingBefore, nothingAfter]
  rfl

theorem filter_key_eq_nil (missing : self.get? key = none) :
    self.entries.filter (fun entry => decide (entry.1 = key)) = [] := by
  apply List.filter_eq_nil_iff.mpr
  intro entry member same
  rw [decide_eq_true_eq] at same
  subst same
  rw [get?_eq_some_iff.mpr member] at missing
  cases missing

theorem remove_perm (found : self.get? key = some value) :
    self.entries.Perm ((self.remove key).entries ++ [(key, value)]) := by
  have parts := filter_append_perm (fun entry : α × β => decide (entry.1 ≠ key)) self.entries
  have others : self.entries.filter (fun entry => !decide (entry.1 ≠ key)) = [(key, value)] := by
    rw [← filter_key_eq found]
    apply filter_congr
    intro entry _
    simp
  rw [others] at parts
  exact parts.symm

theorem remove_eq_self (missing : self.get? key = none) :
    (self.remove key).entries = self.entries := by
  apply List.filter_eq_self.mpr
  intro entry member
  apply decide_eq_true
  intro same
  subst same
  rw [get?_eq_some_iff.mpr member] at missing
  cases missing

def insertAll (self other : HashMap α β) : HashMap α β :=
  other.entries.foldl (fun map entry => map.insert entry.1 entry.2) self

theorem get?_insertAll (self other : HashMap α β) (key : α) :
    (self.insertAll other).get? key = (other.get? key).or (self.get? key) := by
  obtain ⟨entries, distinct⟩ := other
  unfold insertAll
  dsimp only
  induction entries generalizing self with
  | nil => rfl
  | cons entry entries ih =>
    rw [map_cons, nodup_cons] at distinct
    rw [foldl_cons, ih _ distinct.2, get?_insert]
    by_cases same : key = entry.1
    · have absent : (⟨entries, distinct.2⟩ : HashMap α β).get? key = none := by
        cases found : (⟨entries, distinct.2⟩ : HashMap α β).get? key with
        | none => rfl
        | some value =>
          have member : (key, value) ∈ entries := get?_eq_some_iff.mp found
          exact absurd (same ▸ List.mem_map_of_mem (f := Prod.fst) member) distinct.1
      rw [absent, if_pos same]
      simp [get?, same]
    · rw [if_neg same]
      simp [get?, Ne.symm same]

section Multimap

variable {γ : Type v}

def values (self : HashMap α (List γ)) (key : α) : List γ := (self.get? key).getD []

def extend (self : HashMap α (List γ)) (key : α) (added : List γ) : HashMap α (List γ) :=
  self.insert key (self.values key ++ added)

def extendAll (self other : HashMap α (List γ)) : HashMap α (List γ) :=
  other.entries.foldl (fun map entry => map.extend entry.1 entry.2) self

theorem values_insert (self : HashMap α (List γ)) (key other : α) (value : List γ) :
    (self.insert key value).values other = if other = key then value else self.values other := by
  unfold values
  rw [get?_insert]
  split_ifs <;> rfl

theorem values_remove (self : HashMap α (List γ)) (key other : α) :
    (self.remove key).values other = if other = key then [] else self.values other := by
  unfold values
  rw [get?_remove]
  split_ifs <;> rfl

theorem values_extend (self : HashMap α (List γ)) (key other : α) (added : List γ) :
    (self.extend key added).values other = self.values other ++ if other = key then added else [] := by
  unfold extend
  rw [values, get?_insert]
  by_cases same : other = key
  · rw [if_pos same, if_pos same, same]
    rfl
  · rw [if_neg same, if_neg same, append_nil]
    rfl

theorem values_foldl_extend (entries : List (α × List γ)) (self : HashMap α (List γ)) (key : α) :
    (entries.foldl (fun map entry => map.extend entry.1 entry.2) self).values key =
      self.values key ++ (entries.filter fun entry => entry.1 = key).flatMap Prod.snd := by
  induction entries generalizing self with
  | nil => simp
  | cons entry entries ih =>
    rw [foldl_cons, ih, values_extend, filter_cons, append_assoc]
    by_cases same : entry.1 = key
    · simp [same]
    · simp [same, Ne.symm same]

theorem values_extendAll (self other : HashMap α (List γ)) (key : α) :
    (self.extendAll other).values key = self.values key ++ other.values key := by
  unfold extendAll
  rw [values_foldl_extend]
  congr 1
  cases found : other.get? key with
  | none =>
    rw [filter_key_eq_nil found, values, found]
    rfl
  | some value =>
    rw [filter_key_eq found, values, found]
    exact append_nil _

def Inhabited (self : HashMap α (List γ)) : Prop := ∀ key, self.get? key ≠ some []

theorem Inhabited.extend {self : HashMap α (List γ)} (inhabited : self.Inhabited) {added : List γ} (some : added ≠ [])
    (key : α) : (self.extend key added).Inhabited := by
  intro other found
  unfold HashMap.extend at found
  rw [get?_insert] at found
  by_cases same : other = key
  · rw [if_pos same, some_inj] at found
    exact some (List.append_eq_nil_iff.mp found).2
  · rw [if_neg same] at found
    exact inhabited other found

theorem Inhabited.extendAll {self other : HashMap α (List γ)} (inhabited : self.Inhabited)
    (otherInhabited : other.Inhabited) : (self.extendAll other).Inhabited := by
  have entriesInhabited : ∀ entry ∈ other.entries, entry.2 ≠ [] := by
    intro entry member nothing
    apply otherInhabited entry.1
    rw [get?_eq_some_iff, ← nothing]
    exact member
  unfold HashMap.extendAll
  generalize other.entries = entries at entriesInhabited
  induction entries generalizing self with
  | nil => exact inhabited
  | cons entry entries ih =>
    obtain ⟨first, rest⟩ := List.forall_mem_cons.mp entriesInhabited
    exact ih (inhabited.extend first entry.1) rest

end Multimap

end HashMap

namespace HashSet

variable {α : Type u} [DecidableEq α]

def filter (self : HashSet α) (p : α → Bool) : HashSet α := ⟨self.elems.filter p, self.distinct.filter p⟩

def remove (self : HashSet α) (value : α) : HashSet α := self.filter (· ≠ value)

def empty : HashSet α := ⟨[], nodup_nil⟩

def insert (self : HashSet α) (value : α) : HashSet α := ⟨self.elems.insert value, self.distinct.insert⟩

def isEmpty (self : HashSet α) : Bool := self.elems.isEmpty

instance : Membership α (HashSet α) := ⟨fun self value => value ∈ self.elems⟩

instance (self : HashSet α) (value : α) : Decidable (value ∈ self) := inferInstanceAs (Decidable (value ∈ self.elems))

variable {self : HashSet α} {value : α}

omit [DecidableEq α] in
@[simp] theorem mem_filter {p : α → Bool} :
    value ∈ self.filter p ↔ value ∈ self ∧ p value = true := List.mem_filter

@[simp] theorem mem_remove {other : α} :
    other ∈ self.remove value ↔ other ∈ self ∧ other ≠ value := by
  unfold remove
  rw [mem_filter, decide_eq_true_eq]

@[simp] theorem mem_insert {other : α} :
    other ∈ self.insert value ↔ other = value ∨ other ∈ self := mem_insert_iff

omit [DecidableEq α] in
@[simp] theorem notMem_empty (value : α) : value ∉ (empty : HashSet α) := not_mem_nil

omit [DecidableEq α] in
@[simp] theorem mem_elems : value ∈ self.elems ↔ value ∈ self := .rfl

omit [DecidableEq α] in
theorem isEmpty_iff : self.isEmpty = true ↔ ∀ value, value ∉ self := by
  unfold isEmpty
  rw [List.isEmpty_iff, eq_nil_iff_forall_not_mem]
  rfl

end HashSet

end Warp
