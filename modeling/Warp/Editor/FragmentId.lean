import Warp.Lib.Checked

namespace Warp.Editor

open List

open Checked (add sub)

abbrev FragmentId := List ℕ

namespace FragmentId

def maxEntry : ℕ := 65535

def minValue : FragmentId := [0]
def maxValue : FragmentId := [maxEntry]

def clamp (value low high : ℕ) : ℕ := max low (min value high)

/-- One turn of the loop, given what the turns after it push. -/
def entry (l r : ℕ) (rest : Option FragmentId) : Option FragmentId := do
  let interval ← sub r l
  if 1 < interval then do
    let pushed ← add 16 l (clamp (interval / 2) 1 8)
    some [pushed]
  else do
    let rest ← rest
    some (l :: rest)

def betweenZeros (greatest : ℕ) : FragmentId → Option FragmentId
  | [] => entry 0 greatest none
  | r :: right => entry 0 r (betweenZeros greatest right)

def betweenWithMax (greatest : ℕ) : FragmentId → FragmentId → Option FragmentId
  | [], right => betweenZeros greatest right
  | l :: left, right => entry l (right.headD greatest) (betweenWithMax greatest left right.tail)

/-- An overflow has no result. -/
def between (left right : FragmentId) : Option FragmentId := betweenWithMax maxEntry left right

def Adjacent (ids : List FragmentId) (a b : FragmentId) : Prop := a ∈ ids ∧ b ∈ ids ∧ a < b ∧ ∀ c ∈ ids, ¬ (a < c ∧ c < b)

/-- The ids that are made by going between neighbours, again and again. -/
inductive Reachable : List FragmentId → Prop where
  | start : Reachable [minValue, maxValue]
  | insert {ids a b n} : Reachable ids → Adjacent ids a b → between a b = some n → Reachable (n :: ids)

variable {a b n left right : FragmentId} {l r v : ℕ} {ids : List FragmentId}

section Turns

theorem clamp_le {interval : ℕ} (wide : 1 < interval) : 0 < clamp (interval / 2) 1 8 ∧ clamp (interval / 2) 1 8 < interval := by
  unfold clamp
  omega

variable {rest : Option FragmentId}

theorem entry_wide (wide : l + 1 < r) (fits : r ≤ maxEntry) :
    ∃ v, entry l r rest = some [v] ∧ l < v ∧ v < r := by
  obtain ⟨pos, less⟩ := clamp_le (show 1 < r - l by omega)
  have small : l + clamp ((r - l) / 2) 1 8 < 2 ^ 16 := by
    unfold maxEntry at fits
    omega
  refine ⟨l + clamp ((r - l) / 2) 1 8, ?_, by omega, by omega⟩
  unfold entry
  rw [Checked.sub_eq (by omega)]
  show (if 1 < r - l then _ else _) = _
  rw [if_pos (by omega), Checked.add_eq small]
  rfl

theorem entry_narrow (low : l ≤ r) (narrow : r ≤ l + 1) :
    entry l r rest = rest.map (l :: ·) := by
  unfold entry
  rw [Checked.sub_eq low]
  show (if 1 < r - l then _ else _) = _
  rw [if_neg (by omega)]
  cases rest <;> rfl

end Turns

/-- What is new about an id that was made to the right of another one is its last entry alone. -/
structure Grown (a n : FragmentId) : Prop where
  above : a < n
  ends : ∃ q v, n = q ++ [v] ∧ v ≠ 0
  known : ∀ q v rest, n = q ++ v :: rest → v ≠ 0 → rest = [] ∨ ∃ rest', a = q ++ v :: rest'
  small : ∀ entry ∈ n, entry < maxEntry

theorem grown_last (above : l < v) (small : v < maxEntry) : Grown (l :: left) [v] where
  above := List.Lex.rel above
  ends := ⟨[], v, rfl, by omega⟩
  known := by
    intro q w rest same _
    rcases List.append_eq_singleton_iff.mp same.symm with ⟨_, more⟩ | ⟨_, none'⟩
    · exact .inl (List.cons.inj more).2
    · cases none'
  small := by
    intro entry member
    rwa [List.mem_singleton.mp member]

theorem grown_first (pos : 0 < v) (small : v < maxEntry) : Grown [] [v] where
  above := List.Lex.nil
  ends := ⟨[], v, rfl, by omega⟩
  known := by
    intro q w rest same _
    rcases List.append_eq_singleton_iff.mp same.symm with ⟨_, more⟩ | ⟨_, none'⟩
    · exact .inl (List.cons.inj more).2
    · cases none'
  small := by
    intro entry member
    rwa [List.mem_singleton.mp member]

theorem Grown.cons (grown : Grown left n) (small : l < maxEntry) : Grown (l :: left) (l :: n) where
  above := List.Lex.cons grown.above
  ends := by
    obtain ⟨q, v, rfl, nonzero⟩ := grown.ends
    exact ⟨l :: q, v, rfl, nonzero⟩
  known := by
    intro q v rest same nonzero
    cases q with
    | nil =>
      cases same
      exact .inr ⟨left, rfl⟩
    | cons first q =>
      obtain ⟨rfl, later⟩ := List.cons.inj same
      exact (grown.known q v rest later nonzero).imp_right fun ⟨rest', isLeft⟩ => ⟨rest', by rw [isLeft]; rfl⟩
  small := by
    intro entry member
    rcases List.mem_cons.mp member with rfl | later
    · exact small
    · exact grown.small entry later

theorem Grown.zero (grown : Grown [] n) : Grown [] (0 :: n) where
  above := List.Lex.nil
  ends := (grown.cons (l := 0) (by decide)).ends
  known := by
    intro q v rest same nonzero
    cases q with
    | nil => exact absurd (List.cons.inj same).1.symm nonzero
    | cons first q =>
      have later := (List.cons.inj same).2
      refine .inl ((grown.known q v rest later nonzero).resolve_right fun ⟨rest', isLeft⟩ => ?_)
      exact absurd isLeft (by simp)
  small := (grown.cons (l := 0) (by decide)).small

/-- Two neighbours either leave room at the first entry where they differ, or the right one ends there. -/
def Tight : FragmentId → FragmentId → Prop
  | _, [] => False
  | [], r :: right => r = 0 ∧ Tight [] right ∨ 1 < r ∨ r = 1 ∧ right = []
  | l :: left, r :: right => l = r ∧ Tight left right ∨ l + 1 < r ∨ l + 1 = r ∧ right = []

theorem betweenWithMax_nil (small : ∀ entry ∈ left, entry < maxEntry) :
    ∃ n, betweenWithMax maxEntry left [] = some n ∧ Grown left n := by
  induction left with
  | nil => exact ⟨[8], rfl, grown_first (by decide) (by decide)⟩
  | cons l left ih =>
    have low := small l mem_cons_self
    obtain ⟨n, isBetween, grown⟩ := ih fun entry member => small entry (mem_cons_of_mem _ member)
    unfold betweenWithMax
    by_cases wide : l + 1 < maxEntry
    · obtain ⟨v, isEntry, above, below⟩ := entry_wide wide (Nat.le_refl _)
      exact ⟨[v], isEntry, grown_last above below⟩
    · refine ⟨l :: n, ?_, grown.cons low⟩
      rw [headD_nil, entry_narrow (by omega) (by omega), tail_nil, isBetween]
      rfl

theorem betweenZeros_tight (tight : Tight [] right) (fits : ∀ entry ∈ right, entry ≤ maxEntry) :
    ∃ n, betweenZeros maxEntry right = some n ∧ Grown [] n ∧ n < right := by
  induction right with
  | nil => exact tight.elim
  | cons r right ih =>
    have fit := fits r mem_cons_self
    unfold betweenZeros
    rcases tight with ⟨rfl, tight⟩ | wide | ⟨rfl, rfl⟩
    · obtain ⟨n, isBetween, grown, below⟩ := ih tight fun entry member => fits entry (mem_cons_of_mem _ member)
      refine ⟨0 :: n, ?_, grown.zero, List.Lex.cons below⟩
      rw [entry_narrow (Nat.le_refl _) (by omega), isBetween]
      rfl
    · obtain ⟨v, isEntry, above, below⟩ := entry_wide (show 0 + 1 < r from wide) fit
      exact ⟨[v], isEntry, grown_first above (by omega), List.Lex.rel below⟩
    · exact ⟨[0, 8], rfl, (grown_first (by decide) (by decide)).zero, List.Lex.rel Nat.zero_lt_one⟩

theorem betweenWithMax_tight (tight : Tight left right) (small : ∀ entry ∈ left, entry < maxEntry)
    (fits : ∀ entry ∈ right, entry ≤ maxEntry) :
    ∃ n, betweenWithMax maxEntry left right = some n ∧ Grown left n ∧ n < right := by
  induction left generalizing right with
  | nil => exact betweenZeros_tight tight fits
  | cons l left ih =>
    have low := small l mem_cons_self
    have smalls : ∀ entry ∈ left, entry < maxEntry := fun entry member => small entry (mem_cons_of_mem _ member)
    cases right with
    | nil => exact tight.elim
    | cons r right =>
      have fit := fits r mem_cons_self
      unfold betweenWithMax
      rw [headD_cons, tail_cons]
      rcases tight with ⟨rfl, tight⟩ | wide | ⟨rfl, rfl⟩
      · obtain ⟨n, isBetween, grown, below⟩ := ih tight smalls fun entry member => fits entry (mem_cons_of_mem _ member)
        refine ⟨l :: n, ?_, grown.cons low, List.Lex.cons below⟩
        rw [entry_narrow (Nat.le_refl _) (by omega), isBetween]
        rfl
      · obtain ⟨v, isEntry, above, below⟩ := entry_wide wide fit
        exact ⟨[v], isEntry, grown_last above (by omega), List.Lex.rel below⟩
      · obtain ⟨n, isBetween, grown⟩ := betweenWithMax_nil smalls
        refine ⟨l :: n, ?_, grown.cons low, List.Lex.rel (Nat.lt_succ_self l)⟩
        rw [entry_narrow (by omega) (Nat.le_refl _), isBetween]
        rfl

theorem tight_of_lt (less : a < b) (ends : ∃ q v, b = q ++ [v] ∧ v ≠ 0)
    (nearest : ∀ q v rest, b = q ++ v :: rest → v ≠ 0 → a < q ++ [v] → rest = []) : Tight a b := by
  induction b generalizing a with
  | nil =>
    obtain ⟨q, v, same, _⟩ := ends
    simp at same
  | cons r right ih =>
    have later (some' : right ≠ []) : ∃ q v, right = q ++ [v] ∧ v ≠ 0 := by
      obtain ⟨q, v, same, nonzero⟩ := ends
      cases q with
      | nil => exact absurd (List.cons.inj same).2 some'
      | cons first q => exact ⟨q, v, (List.cons.inj same).2, nonzero⟩
    cases a with
    | nil =>
      rcases Nat.lt_trichotomy r 1 with zero | one | wide
      · have zero : r = 0 := by omega
        subst zero
        have some' : right ≠ [] := by
          rintro rfl
          obtain ⟨q, v, same, nonzero⟩ := ends
          rcases List.append_eq_singleton_iff.mp same.symm with ⟨_, same⟩ | ⟨_, same⟩
          · exact nonzero (List.cons.inj same).1
          · cases same
        refine .inl ⟨rfl, ih ?_ (later some') fun q v rest same nonzero _ => ?_⟩
        · obtain ⟨first, rest, rfl⟩ := exists_cons_of_ne_nil some'
          exact List.Lex.nil
        · exact nearest (0 :: q) v rest (by rw [same]; rfl) nonzero List.Lex.nil
      · subst one
        exact .inr (.inr ⟨rfl, nearest [] 1 right rfl (by decide) List.Lex.nil⟩)
      · exact .inr (.inl wide)
    | cons l left =>
      cases less with
      | rel less =>
        by_cases wide : l + 1 < r
        · exact .inr (.inl wide)
        · refine .inr (.inr ⟨by omega, nearest [] r right rfl (by omega) (List.Lex.rel less)⟩)
      | cons less =>
        have some' : right ≠ [] := by
          rintro rfl
          cases less
        refine .inl ⟨rfl, ih less (later some') fun q v rest same nonzero lower => ?_⟩
        exact nearest (r :: q) v rest (by rw [same]; rfl) nonzero (List.Lex.cons lower)

/-- The ids are the least one, the greatest one, and ids that end in a nonzero entry, and each id comes with all the ids that
its nonzero entries end. -/
structure Closed (ids : List FragmentId) : Prop where
  shape : ∀ b ∈ ids, b = minValue ∨ b = maxValue ∨ (∃ q v, b = q ++ [v] ∧ v ≠ 0) ∧ ∀ entry ∈ b, entry < maxEntry
  known : ∀ b ∈ ids, ∀ q v rest, b = q ++ v :: rest → v ≠ 0 → q ++ [v] ∈ ids

theorem single_known {q rest : FragmentId} {w : ℕ} (same : [w] = q ++ v :: rest) : q ++ [v] = [w] := by
  cases q with
  | nil => rw [(List.cons.inj same).1, nil_append]
  | cons first q => simp at same

theorem Closed.start : Closed [minValue, maxValue] where
  shape := by simp
  known := by
    intro b member q v rest same nonzero
    rcases List.mem_pair.mp member with rfl | rfl
    · exact single_known same ▸ mem_cons_self
    · exact single_known same ▸ mem_cons_of_mem _ mem_cons_self

theorem Closed.insert (closed : Closed ids) (member : a ∈ ids) (grown : Grown a n) : Closed (n :: ids) where
  shape := by
    intro b isId
    rcases List.mem_cons.mp isId with rfl | old
    · exact .inr (.inr ⟨grown.ends, grown.small⟩)
    · exact closed.shape b old
  known := by
    intro b isId q v rest same nonzero
    rcases List.mem_cons.mp isId with rfl | old
    · rcases grown.known q v rest same nonzero with rfl | ⟨rest', isLeft⟩
      · exact same ▸ mem_cons_self
      · exact mem_cons_of_mem _ (closed.known a member q v rest' isLeft nonzero)
    · exact mem_cons_of_mem _ (closed.known b old q v rest same nonzero)

theorem Closed.ne_nil (closed : Closed ids) (member : a ∈ ids) : a ≠ [] := by
  rcases closed.shape a member with rfl | rfl | ⟨⟨q, v, rfl, _⟩, _⟩
  · decide
  · decide
  · exact append_ne_nil_of_right_ne_nil q (cons_ne_nil v [])

theorem lt_append (more : right ≠ []) : left < left ++ right := by
  induction left with
  | nil =>
    obtain ⟨first, rest, rfl⟩ := exists_cons_of_ne_nil more
    exact List.Lex.nil
  | cons l left ih => exact List.Lex.cons ih

theorem not_lt_minValue (some' : a ≠ []) : ¬ a < minValue := by
  intro less
  cases less with
  | nil => exact some' rfl
  | cons less => cases less
  | rel less => exact Nat.not_lt_zero _ less

theorem lt_maxValue (some' : a ≠ []) (small : ∀ entry ∈ a, entry < maxEntry) : a < maxValue := by
  obtain ⟨first, rest, rfl⟩ := exists_cons_of_ne_nil some'
  exact List.Lex.rel (small first mem_cons_self)

section

variable (closed : Closed ids)
include closed

theorem Closed.fits (member : b ∈ ids) : ∀ entry ∈ b, entry ≤ maxEntry := by
  rcases closed.shape b member with rfl | rfl | ⟨_, small⟩
  · decide
  · decide
  · exact fun entry isEntry => Nat.le_of_lt (small entry isEntry)

theorem Closed.not_maxValue_lt (member : b ∈ ids) : ¬ maxValue < b := by
  rcases closed.shape b member with rfl | rfl | ⟨_, small⟩
  · decide
  · decide
  · exact List.lt_asymm (lt_maxValue (closed.ne_nil member) small)

theorem Closed.small (adjacent : Adjacent ids a b) : ∀ entry ∈ a, entry < maxEntry := by
  obtain ⟨left, right, less, _⟩ := adjacent
  rcases closed.shape a left with rfl | rfl | ⟨_, small⟩
  · decide
  · exact absurd less (closed.not_maxValue_lt right)
  · exact small

theorem Closed.ends (adjacent : Adjacent ids a b) : ∃ q v, b = q ++ [v] ∧ v ≠ 0 := by
  obtain ⟨left, right, less, _⟩ := adjacent
  rcases closed.shape b right with rfl | rfl | ⟨ends, _⟩
  · exact absurd less (not_lt_minValue (closed.ne_nil left))
  · exact ⟨[], maxEntry, rfl, by decide⟩
  · exact ends

theorem Closed.tight (adjacent : Adjacent ids a b) : Tight a b := by
  obtain ⟨_, right, less, nearest⟩ := id adjacent
  refine tight_of_lt less (closed.ends adjacent) fun q v rest same nonzero lower => ?_
  by_contra more
  refine nearest (q ++ [v]) (closed.known b right q v rest same nonzero) ⟨lower, ?_⟩
  rw [same, show q ++ v :: rest = (q ++ [v]) ++ rest by simp]
  exact lt_append more

end

theorem Closed.between (closed : Closed ids) (adjacent : Adjacent ids a b) :
    ∃ n, FragmentId.between a b = some n ∧ Grown a n ∧ n < b :=
  betweenWithMax_tight (closed.tight adjacent) (closed.small adjacent) (closed.fits adjacent.2.1)

theorem Reachable.closed (reachable : Reachable ids) : Closed ids := by
  induction reachable with
  | start => exact Closed.start
  | insert _ adjacent isBetween closed =>
    obtain ⟨n, isNew, grown, _⟩ := closed.between adjacent
    cases isNew.symm.trans isBetween
    exact closed.insert adjacent.1 grown

/-- Between any two neighbours there is another id, and no entry of it is out of range on the way. -/
theorem between_adjacent (reachable : Reachable ids) (adjacent : Adjacent ids a b) :
    ∃ n, between a b = some n ∧ a < n ∧ n < b := by
  obtain ⟨n, isBetween, grown, below⟩ := reachable.closed.between adjacent
  exact ⟨n, isBetween, grown.above, below⟩

theorem adjacent_start : Adjacent [minValue, maxValue] minValue maxValue := by
  refine ⟨by simp, by simp, by decide, fun c member => ?_⟩
  rcases List.mem_pair.mp member with rfl | rfl <;> decide

theorem between_adjacent_start : ∃ n, between minValue maxValue = some n ∧ minValue < n ∧ n < maxValue :=
  between_adjacent .start adjacent_start

end FragmentId

end Warp.Editor
