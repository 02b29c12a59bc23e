import Mathlib.Tactic

namespace Warp

open List

universe u v

structure BiMap (α : Type u) (β : Type v) where
  entries : List (α × β)
  lefts : (entries.map Prod.fst).Nodup
  rights : (entries.map Prod.snd).Nodup

namespace BiMap

variable {α : Type u} {β : Type v} [DecidableEq α] [DecidableEq β]

def empty : BiMap α β := ⟨[], nodup_nil, nodup_nil⟩

def len (self : BiMap α β) : ℕ := self.entries.length

def isEmpty (self : BiMap α β) : Bool := self.entries.isEmpty

def getByLeft (self : BiMap α β) (left : α) : Option β :=
  (self.entries.find? fun entry => entry.1 = left).map Prod.snd

def getByRight (self : BiMap α β) (right : β) : Option α :=
  (self.entries.find? fun entry => entry.2 = right).map Prod.fst

def containsLeft (self : BiMap α β) (left : α) : Bool := self.entries.any fun entry => entry.1 = left

def keep (self : BiMap α β) (p : α × β → Bool) : BiMap α β :=
  ⟨self.entries.filter p, self.lefts.sublist (List.filter_sublist.map _), self.rights.sublist (List.filter_sublist.map _)⟩

def removeByRight (self : BiMap α β) (right : β) : BiMap α β := self.keep fun entry => entry.2 ≠ right

/-- Evicts the pairs that hold either value. -/
def insert (self : BiMap α β) (left : α) (right : β) : BiMap α β where
  entries := (self.keep fun entry => entry.1 ≠ left ∧ entry.2 ≠ right).entries ++ [(left, right)]
  lefts := by
    rw [map_append, map_singleton]
    apply List.Nodup.append (BiMap.lefts _) (nodup_singleton _)
    intro other member same
    obtain ⟨entry, kept, rfl⟩ := List.mem_map.mp member
    have distinct := (List.mem_filter.mp kept).2
    simp only [decide_eq_true_eq] at distinct
    exact distinct.1 (List.mem_singleton.mp same)
  rights := by
    rw [map_append, map_singleton]
    apply List.Nodup.append (BiMap.rights _) (nodup_singleton _)
    intro other member same
    obtain ⟨entry, kept, rfl⟩ := List.mem_map.mp member
    have distinct := (List.mem_filter.mp kept).2
    simp only [decide_eq_true_eq] at distinct
    exact distinct.2 (List.mem_singleton.mp same)

theorem find?_key_eq_some_iff {ι : Type*} {κ : Type*} [DecidableEq κ] {key : ι → κ} {items : List ι}
    (distinct : (items.map key).Nodup) {k : κ} {item : ι} :
    items.find? (fun item => key item = k) = some item ↔ item ∈ items ∧ key item = k := by
  constructor
  · intro found
    have same := List.find?_some found
    simp only [decide_eq_true_eq] at same
    exact ⟨mem_of_find?_eq_some found, same⟩
  · rintro ⟨member, rfl⟩
    cases first : items.find? fun other => key other = key item with
    | none =>
      have missing := List.find?_eq_none.mp first _ member
      simp only [decide_true, not_true] at missing
    | some other =>
      have same := List.find?_some first
      simp only [decide_eq_true_eq] at same
      rw [inj_on_of_nodup_map distinct (mem_of_find?_eq_some first) member same]

variable {left : α} {right : β} {self : BiMap α β}

omit [DecidableEq β] in
theorem getByLeft_eq_some_iff :
    self.getByLeft left = some right ↔ (left, right) ∈ self.entries := by
  unfold getByLeft
  rw [Option.map_eq_some_iff]
  constructor
  · rintro ⟨⟨key, value⟩, found, rfl⟩
    obtain ⟨member, same⟩ := (find?_key_eq_some_iff self.lefts).mp found
    subst same
    exact member
  · intro member
    exact ⟨_, (find?_key_eq_some_iff self.lefts).mpr ⟨member, rfl⟩, rfl⟩

omit [DecidableEq α] in
theorem getByRight_eq_some_iff :
    self.getByRight right = some left ↔ (left, right) ∈ self.entries := by
  unfold getByRight
  rw [Option.map_eq_some_iff]
  constructor
  · rintro ⟨⟨key, value⟩, found, rfl⟩
    obtain ⟨member, same⟩ := (find?_key_eq_some_iff self.rights).mp found
    subst same
    exact member
  · intro member
    exact ⟨_, (find?_key_eq_some_iff self.rights).mpr ⟨member, rfl⟩, rfl⟩

omit [DecidableEq β] in
theorem containsLeft_iff :
    self.containsLeft left = true ↔ ∃ right, (left, right) ∈ self.entries := by
  unfold containsLeft
  rw [List.any_eq_true]
  constructor
  · rintro ⟨⟨key, value⟩, member, same⟩
    simp only [decide_eq_true_eq] at same
    subst same
    exact ⟨value, member⟩
  · rintro ⟨right, member⟩
    exact ⟨_, member, by simp only [decide_true]⟩

omit [DecidableEq α] in
@[simp] theorem mem_removeByRight {entry : α × β} :
    entry ∈ (self.removeByRight right).entries ↔ entry ∈ self.entries ∧ entry.2 ≠ right := by
  simp [removeByRight, keep]

@[simp] theorem mem_insert {entry : α × β} :
    entry ∈ (self.insert left right).entries ↔
      entry ∈ self.entries ∧ entry.1 ≠ left ∧ entry.2 ≠ right ∨ entry = (left, right) := by
  simp [insert, keep]

section Enumerates

variable {self : BiMap α ℕ} {xs ys : List α}

/-- Numbers the values from `offset` on. -/
def insertFrom (self : BiMap α ℕ) (offset : ℕ) : List α → BiMap α ℕ
  | [] => self
  | x :: xs => (self.insert x offset).insertFrom (offset + 1) xs

def removeRights (self : BiMap α ℕ) (offsets : List ℕ) : BiMap α ℕ := offsets.foldl removeByRight self

def Enumerates (self : BiMap α ℕ) (xs : List α) : Prop :=
  ∀ left right, (left, right) ∈ self.entries ↔ xs[right]? = some left

omit [DecidableEq α] in
theorem enumerates_empty : (empty : BiMap α ℕ).Enumerates [] := by
  intro left right
  simp [empty]

theorem Enumerates.insert (enumerates : self.Enumerates xs) {x : α} (fresh : x ∉ xs) :
    (self.insert x xs.length).Enumerates (xs ++ [x]) := by
  intro left right
  rw [mem_insert, enumerates left right]
  constructor
  · rintro (⟨atRight, -, -⟩ | same)
    · obtain ⟨inside, -⟩ := List.getElem?_eq_some_iff.mp atRight
      rw [List.getElem?_append_left inside, atRight]
    · injection same with sameLeft sameRight
      rw [sameLeft, sameRight, List.getElem?_concat_length]
  · intro atRight
    rcases Nat.lt_trichotomy right xs.length with inside | same | beyond
    · rw [List.getElem?_append_left inside] at atRight
      refine .inl ⟨atRight, ?_, inside.ne⟩
      intro same
      have same : left = x := same
      subst same
      exact fresh (mem_of_getElem? atRight)
    · subst same
      rw [List.getElem?_concat_length] at atRight
      exact .inr (by rw [Option.some_inj.mp atRight])
    · rw [List.getElem?_eq_none (by rw [length_append, length_singleton]; omega)] at atRight
      cases atRight

theorem Enumerates.insertFrom (enumerates : self.Enumerates xs) (distinct : (xs ++ ys).Nodup) :
    (self.insertFrom xs.length ys).Enumerates (xs ++ ys) := by
  induction ys generalizing self xs with
  | nil =>
    rw [append_nil]
    exact enumerates
  | cons y ys ih =>
    rw [append_cons] at distinct ⊢
    have fresh : y ∉ xs := by
      intro member
      have front := (List.nodup_append.mp distinct).1
      exact (List.nodup_append.mp front).2.2 y member y (mem_singleton_self y) rfl
    have inserted := ih (enumerates.insert fresh) distinct
    rw [length_append, length_singleton] at inserted
    exact inserted

omit [DecidableEq α] in
theorem mem_removeRights {offsets : List ℕ} {entry : α × ℕ} :
    entry ∈ (self.removeRights offsets).entries ↔ entry ∈ self.entries ∧ entry.2 ∉ offsets := by
  induction offsets generalizing self with
  | nil => simp [removeRights]
  | cons offset offsets ih =>
    change entry ∈ ((self.removeByRight offset).removeRights offsets).entries ↔ _
    rw [ih, mem_removeByRight, mem_cons, not_or, and_assoc]

omit [DecidableEq α] in
theorem Enumerates.length_eq (enumerates : self.Enumerates xs) : self.len = xs.length := by
  have sameRights : (self.entries.map Prod.snd).Perm (List.range xs.length) := by
    rw [perm_ext_iff_of_nodup self.rights nodup_range]
    intro right
    rw [List.mem_map, mem_range]
    constructor
    · rintro ⟨⟨left, right⟩, member, rfl⟩
      exact (List.getElem?_eq_some_iff.mp ((enumerates left right).mp member)).1
    · intro inside
      exact ⟨(xs[right], right), (enumerates _ _).mpr (List.getElem?_eq_getElem inside), rfl⟩
  have lengths := sameRights.length_eq
  rw [length_map, length_range] at lengths
  exact lengths

omit [DecidableEq α] in
theorem Enumerates.removeRights (enumerates : self.Enumerates xs) (offset : ℕ) :
    (self.removeRights (List.range' offset (self.len + 1 - offset))).Enumerates (xs.take offset) := by
  intro left right
  rw [mem_removeRights, enumerates left right, mem_range'_1, enumerates.length_eq]
  by_cases before : right < offset
  · rw [List.getElem?_take_of_lt before]
    exact and_iff_left fun inside => by have := inside.1; simp only at this; omega
  · rw [List.getElem?_take_eq_none (Nat.le_of_not_lt before)]
    constructor
    · rintro ⟨atRight, outside⟩
      obtain ⟨inside, -⟩ := List.getElem?_eq_some_iff.mp atRight
      exact absurd ⟨Nat.le_of_not_lt before, by simp only; omega⟩ outside
    · intro nothing
      cases nothing

end Enumerates

end BiMap

end Warp
