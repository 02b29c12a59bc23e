import Mathlib.Tactic

namespace Warp

open List

structure Interval (α : Type) where
  start : α
  stop : α
deriving DecidableEq

namespace Interval

variable {α : Type} [LinearOrder α]

def Valid (self : Interval α) : Prop := self.start ≤ self.stop

def Touches (self other : Interval α) : Prop := self.start ≤ other.stop ∧ other.start ≤ self.stop

instance (self other : Interval α) : Decidable (self.Touches other) := inferInstanceAs (Decidable (_ ∧ _))

def OverlapsAt (xs : List (Interval α)) (i : ℕ) : Prop :=
  ∃ j a b, j ≠ i ∧ xs[i]? = some a ∧ xs[j]? = some b ∧ a.Touches b

def extend (self other : Interval α) : Interval α := ⟨self.start, max self.stop other.stop⟩

/-- Intervals in the order of their starts, each of which touches what the ones before it cover, with that whole. -/
inductive Cluster : List (Interval α) → Interval α → Prop where
  | single {r} : r.Valid → Cluster [r] r
  | snoc {members whole r} : Cluster members whole → r.Valid → whole.start ≤ r.start → r.start ≤ whole.stop →
      Cluster (members ++ [r]) (whole.extend r)

variable {a b whole other r : Interval α} {members xs ys : List (Interval α)} {p : α} {i : ℕ}

theorem Valid.touches (valid : a.Valid) : a.Touches a := ⟨valid, valid⟩

theorem Touches.symm (touches : a.Touches b) : b.Touches a := ⟨touches.2, touches.1⟩

namespace Cluster

theorem valid (cluster : Cluster members whole) : whole.Valid := by
  induction cluster with
  | single valid => exact valid
  | snoc _ _ _ _ ih => exact le_max_of_le_left ih

theorem ne_nil (cluster : Cluster members whole) : members ≠ [] := by
  cases cluster <;> simp

theorem inside (cluster : Cluster members whole) (member : a ∈ members) :
    a.Valid ∧ whole.start ≤ a.start ∧ a.stop ≤ whole.stop := by
  induction cluster with
  | single valid =>
    obtain rfl := List.mem_singleton.mp member
    exact ⟨valid, le_refl _, le_refl _⟩
  | snoc _ valid low high ih =>
    rcases List.mem_append.mp member with old | new
    · obtain ⟨valid, low, high⟩ := ih old
      exact ⟨valid, low, le_max_of_le_left high⟩
    · obtain rfl := List.mem_singleton.mp new
      exact ⟨valid, low, le_max_right _ _⟩

section

variable (cluster : Cluster members whole)
include cluster

theorem exists_first : ∃ a ∈ members, a.start = whole.start := by
  induction cluster with
  | single => exact ⟨_, mem_singleton_self _, rfl⟩
  | snoc _ _ _ _ ih =>
    obtain ⟨a, member, first⟩ := ih
    exact ⟨a, mem_append_left _ member, first⟩

theorem exists_position (low : whole.start ≤ p) (high : p ≤ whole.stop) :
    ∃ a ∈ members, a.start ≤ p ∧ p ≤ a.stop := by
  induction cluster with
  | single => exact ⟨_, mem_singleton_self _, low, high⟩
  | @snoc _ whole r _ _ _ near ih =>
    by_cases old : p ≤ whole.stop
    · obtain ⟨a, member, inside⟩ := ih low old
      exact ⟨a, mem_append_left _ member, inside⟩
    · rcases le_max_iff.mp high with le | le
      · exact absurd le old
      · exact ⟨r, mem_append_right _ (mem_singleton_self r), near.trans (le_of_not_ge old), le⟩

theorem exists_character (low : whole.start ≤ p) (high : p < whole.stop) :
    ∃ a ∈ members, a.start ≤ p ∧ p < a.stop := by
  induction cluster with
  | single => exact ⟨_, mem_singleton_self _, low, high⟩
  | @snoc _ whole r _ _ _ near ih =>
    by_cases old : p < whole.stop
    · obtain ⟨a, member, inside⟩ := ih low old
      exact ⟨a, mem_append_left _ member, inside⟩
    · rcases lt_max_iff.mp high with lt | lt
      · exact absurd lt old
      · exact ⟨r, mem_append_right _ (mem_singleton_self r), near.trans (le_of_not_gt old), lt⟩

theorem exists_touching (valid : r.Valid) (touches : r.Touches whole) :
    ∃ a ∈ members, r.Touches a := by
  obtain ⟨low, high⟩ := touches
  have begins : max r.start whole.start ≤ whole.stop := max_le low cluster.valid
  obtain ⟨a, member, inside⟩ := cluster.exists_position (le_max_right r.start whole.start) begins
  exact ⟨a, member, (le_max_left _ _).trans inside.2, inside.1.trans (max_le valid high)⟩

theorem one_lt_countP (many : 1 < members.length) (member : a ∈ members) :
    1 < members.countP (fun b => a.Touches b) := by
  induction cluster with
  | single => simp at many
  | @snoc members whole r cluster valid low high ih =>
    rw [countP_append, countP_singleton]
    rcases List.mem_append.mp member with old | new
    · by_cases several : 1 < members.length
      · have := ih several old
        omega
      · -- The only member touches the new one, which starts in it.
        obtain ⟨only, rfl⟩ : ∃ only, members = [only] := by
          apply List.length_eq_one_iff.mp
          have := List.length_pos_iff.mpr cluster.ne_nil
          omega
        obtain rfl := List.mem_singleton.mp old
        obtain ⟨first, isFirst, touches⟩ := cluster.exists_touching valid ⟨high, low.trans valid⟩
        obtain rfl := List.mem_singleton.mp isFirst
        have itself : first.Touches first := (cluster.inside isFirst).1.touches
        have new : first.Touches r := touches.symm
        simp [itself, new]
    · obtain rfl := List.mem_singleton.mp new
      obtain ⟨b, member, touches⟩ := cluster.exists_touching valid ⟨high, low.trans valid⟩
      have counted : 0 < members.countP (fun b => a.Touches b) := List.countP_pos_iff.mpr ⟨b, member, by simpa using touches⟩
      rw [if_pos (by simpa using valid.touches)]
      omega

end

end Cluster

structure Clusters (xs : List (Interval α)) (groups : List (List (Interval α) × Interval α)) : Prop where
  flat : xs = groups.flatMap Prod.fst
  cluster : ∀ group ∈ groups, Cluster group.1 group.2
  apart : groups.Pairwise fun group later => group.2.stop < later.2.start

namespace Clusters

variable {groups : List (List (Interval α) × Interval α)} {group group' : List (Interval α) × Interval α}

theorem nil : Clusters ([] : List (Interval α)) [] := ⟨rfl, nofun, .nil⟩

section

variable (clusters : Clusters xs groups)
include clusters

theorem mem_iff : a ∈ xs ↔ ∃ group ∈ groups, a ∈ group.1 := by
  rw [clusters.flat, mem_flatMap]

theorem valid (member : a ∈ xs) : a.Valid := by
  obtain ⟨group, isGroup, member⟩ := clusters.mem_iff.mp member
  exact ((clusters.cluster group isGroup).inside member).1

theorem eq_of_touches (isGroup : group ∈ groups) (isGroup' : group' ∈ groups) (touches : group.2.Touches group'.2) :
    group = group' := by
  by_contra different
  have separate : groups.Pairwise fun group later => ¬ group.2.Touches later.2 :=
    clusters.apart.imp fun lt touches => absurd touches.2 (not_le_of_gt lt)
  have symmetric : Std.Symm fun group later : List (Interval α) × Interval α => ¬ group.2.Touches later.2 :=
    ⟨fun _ _ apart touches => apart touches.symm⟩
  exact separate.forall isGroup isGroup' different touches

theorem touches_of_members (isGroup : group ∈ groups) (isGroup' : group' ∈ groups) (inGroup : a ∈ group.1)
    (inGroup' : b ∈ group'.1) (touches : a.Touches b) : group = group' := by
  obtain ⟨-, low, high⟩ := (clusters.cluster group isGroup).inside inGroup
  obtain ⟨-, low', high'⟩ := (clusters.cluster group' isGroup').inside inGroup'
  exact clusters.eq_of_touches isGroup isGroup'
    ⟨low.trans (touches.1.trans high'), low'.trans (touches.2.trans high)⟩

end

theorem new (clusters : Clusters xs groups) (valid : r.Valid) (after : ∀ group ∈ groups, group.2.stop < r.start) :
    Clusters (xs ++ [r]) (groups ++ [([r], r)]) where
  flat := by
    rw [clusters.flat, flatMap_append]
    rfl
  cluster group member := by
    rcases List.mem_append.mp member with old | new
    · exact clusters.cluster group old
    · obtain rfl := List.mem_singleton.mp new
      exact .single valid
  apart := by
    rw [pairwise_append]
    refine ⟨clusters.apart, pairwise_singleton _ _, fun group old later new => ?_⟩
    obtain rfl := List.mem_singleton.mp new
    exact after group old

theorem join (clusters : Clusters xs (groups ++ [(members, whole)])) (valid : r.Valid)
    (ordered : ∀ a ∈ xs, a.start ≤ r.start) (near : r.start ≤ whole.stop) :
    Clusters (xs ++ [r]) (groups ++ [(members ++ [r], whole.extend r)]) where
  flat := by
    rw [clusters.flat, flatMap_append, flatMap_append]
    simp
  cluster group member := by
    rcases List.mem_append.mp member with old | new
    · exact clusters.cluster group (mem_append_left _ old)
    · obtain rfl := List.mem_singleton.mp new
      have cluster : Cluster members whole :=
        clusters.cluster (members, whole) (mem_append_right _ (mem_singleton_self _))
      obtain ⟨a, member, first⟩ := cluster.exists_first
      have before := ordered a (clusters.mem_iff.mpr ⟨_, mem_append_right _ (mem_singleton_self _), member⟩)
      exact .snoc cluster valid (first ▸ before) near
  apart := by
    have apart := clusters.apart
    rw [pairwise_append] at apart ⊢
    refine ⟨apart.1, pairwise_singleton _ _, fun group old later new => ?_⟩
    obtain rfl := List.mem_singleton.mp new
    exact apart.2.2 group old (members, whole) (mem_singleton_self _)

theorem one_lt_countP_iff (clusters : Clusters xs groups) (isGroup : group ∈ groups) (member : a ∈ group.1) :
    1 < xs.countP (fun b => a.Touches b) ↔ 1 < group.1.length := by
  have cluster := clusters.cluster group isGroup
  obtain ⟨front, back, split⟩ := append_of_mem isGroup
  have nothing : ∀ others : List (List (Interval α) × Interval α), (∀ other ∈ others, other ∈ groups ∧ other ≠ group) →
      (others.flatMap Prod.fst).countP (fun b => a.Touches b) = 0 := by
    intro others different
    apply List.countP_eq_zero.mpr
    intro b inOthers
    obtain ⟨other, isOther, inOther⟩ := List.mem_flatMap.mp inOthers
    obtain ⟨isGroup', differs⟩ := different other isOther
    simp only [decide_eq_true_eq]
    exact fun touches => differs (clusters.touches_of_members isGroup isGroup' member inOther touches).symm
  have distinct : groups.Nodup := clusters.apart.imp_of_mem fun {first second} isFirst _ lt same => by
    subst same
    exact absurd (clusters.cluster first isFirst).valid (not_le_of_gt lt)
  rw [split, nodup_append] at distinct
  rw [clusters.flat, split, flatMap_append, flatMap_cons, countP_append, countP_append,
    nothing front fun other inFront => ⟨by rw [split]; exact mem_append_left _ inFront,
      distinct.2.2 other inFront group (mem_cons_self)⟩,
    nothing back fun other inBack => ⟨by rw [split]; exact mem_append_right _ (mem_cons_of_mem _ inBack),
      fun same => (List.nodup_cons.mp distinct.2.1).1 (same ▸ inBack)⟩]
  rw [Nat.zero_add, Nat.add_zero]
  constructor
  · intro several
    exact Nat.lt_of_lt_of_le several countP_le_length
  · intro many
    exact cluster.one_lt_countP many member

end Clusters

theorem overlapsAt_iff (valid : ∀ a ∈ xs, a.Valid) :
    OverlapsAt xs i ↔ ∃ a, xs[i]? = some a ∧ 1 < xs.countP (fun b => a.Touches b) := by
  have counted : ∀ a, xs[i]? = some a → xs.countP (fun b => a.Touches b) =
      (xs.take i).countP (fun b => a.Touches b) + ((xs.drop (i + 1)).countP (fun b => a.Touches b) + 1) := by
    intro a found
    have itself : a.Touches a := (valid a (mem_of_getElem? found)).touches
    have split : xs = xs.take i ++ a :: xs.drop (i + 1) := by
      obtain ⟨lt, rfl⟩ := List.getElem?_eq_some_iff.mp found
      rw [← drop_eq_getElem_cons lt, take_append_drop]
    calc xs.countP (fun b => a.Touches b)
      _ = (xs.take i ++ a :: xs.drop (i + 1)).countP (fun b => a.Touches b) := by rw [← split]
      _ = _ := by rw [countP_append, countP_cons, if_pos (decide_eq_true itself)]
  constructor
  · rintro ⟨j, a, b, different, found, other, touches⟩
    refine ⟨a, found, ?_⟩
    rw [counted a found]
    obtain ⟨lt, rfl⟩ := List.getElem?_eq_some_iff.mp other
    rcases Nat.lt_or_gt_of_ne different with before | after
    · have inFront : xs[j] ∈ xs.take i := List.mem_take_iff_getElem.mpr ⟨j, by omega, rfl⟩
      have : 0 < (xs.take i).countP (fun b => a.Touches b) :=
        List.countP_pos_iff.mpr ⟨xs[j], inFront, decide_eq_true touches⟩
      omega
    · have inBack : xs[j] ∈ xs.drop (i + 1) :=
        List.mem_drop_iff_getElem.mpr ⟨j - (i + 1), by omega, by congr 1; omega⟩
      have : 0 < (xs.drop (i + 1)).countP (fun b => a.Touches b) :=
        List.countP_pos_iff.mpr ⟨xs[j], inBack, decide_eq_true touches⟩
      omega
  · rintro ⟨a, found, several⟩
    rw [counted a found] at several
    by_cases inFront : 0 < (xs.take i).countP (fun b => a.Touches b)
    · obtain ⟨b, member, touches⟩ := List.countP_pos_iff.mp inFront
      obtain ⟨j, lt, rfl⟩ := List.mem_take_iff_getElem.mp member
      exact ⟨j, a, _, by omega, found, List.getElem?_eq_getElem _, of_decide_eq_true touches⟩
    · have inBack : 0 < (xs.drop (i + 1)).countP (fun b => a.Touches b) := by omega
      obtain ⟨b, member, touches⟩ := List.countP_pos_iff.mp inBack
      obtain ⟨j, lt, rfl⟩ := List.mem_drop_iff_getElem.mp member
      exact ⟨i + 1 + j, a, _, by omega, found, List.getElem?_eq_getElem _, of_decide_eq_true touches⟩

end Interval

end Warp
