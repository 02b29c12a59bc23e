import Mathlib.Tactic

namespace Warp.Cuts

open List

universe u

inductive Side where
  | before
  | after
deriving DecidableEq

def Side.Takes : Side → (stop position width : ℕ) → Prop
  | before, stop, position, _ => position < stop
  | after, stop, position, width => position + width ≤ stop

instance (side : Side) (stop position width : ℕ) : Decidable (side.Takes stop position width) :=
  match side with
  | .before => Nat.decLt _ _
  | .after => Nat.decLe _ _

variable {α : Type u} (width : α → ℕ)

def total (items : List α) : ℕ := (items.map width).sum

theorem total_cons (item : α) (items : List α) : total width (item :: items) = width item + total width items := by
  simp [total]

/-- Cuts a list whose first element is at a position. -/
def cut (side : Side) (stop : ℕ) : (position : ℕ) → List α → List α × List α
  | _, [] => ([], [])
  | position, item :: items =>
    if side.Takes stop position (width item) then (cut side stop (position + width item) items).map (item :: ·) id
    else ([], item :: items)

def cutAll : List (Side × ℕ) → (position : ℕ) → List α → List (List α)
  | [], _, items => [items]
  | (side, stop) :: cuts, position, items =>
    let parts := cut width side stop position items
    parts.1 :: cutAll cuts (position + total width parts.1) parts.2

theorem cut_append (side : Side) (stop position : ℕ) (items : List α) :
    (cut width side stop position items).1 ++ (cut width side stop position items).2 = items := by
  induction items generalizing position with
  | nil => rfl
  | cons item items ih =>
    rw [cut]
    split
    · exact congrArg (item :: ·) (ih _)
    · rfl

theorem flatten_cutAll (cuts : List (Side × ℕ)) (position : ℕ) (items : List α) :
    (cutAll width cuts position items).flatten = items := by
  induction cuts generalizing position items with
  | nil => exact append_nil items
  | cons first cuts ih =>
    rw [cutAll, flatten_cons, ih]
    exact cut_append width first.1 first.2 position items

/-- All elements from a position on are before a cut. -/
def TakesAll (side : Side) (stop : ℕ) : (position : ℕ) → List α → Prop
  | _, [] => True
  | position, item :: items => side.Takes stop position (width item) ∧ TakesAll side stop (position + width item) items

structure IsCut (side : Side) (stop position : ℕ) (taken left : List α) : Prop where
  takes : TakesAll width side stop position taken
  stops : ∀ item items, left = item :: items → ¬ side.Takes stop (position + total width taken) (width item)

variable {width} {side : Side} {stop position : ℕ} {taken left : List α}

theorem takesAll_append {first second : List α} : TakesAll width side stop position (first ++ second) ↔
    TakesAll width side stop position first ∧ TakesAll width side stop (position + total width first) second := by
  induction first generalizing position with
  | nil => simp [TakesAll, total]
  | cons item first ih => rw [cons_append, TakesAll, TakesAll, ih, and_assoc, total_cons, Nat.add_assoc]

theorem takesAll_of_lt (inside : taken = [] ∨ position + total width taken < stop) : TakesAll width side stop position taken := by
  induction taken generalizing position with
  | nil => exact trivial
  | cons item taken ih =>
    have inside := inside.resolve_left (cons_ne_nil _ _)
    rw [total_cons] at inside
    refine ⟨?_, ih (.inr (by omega))⟩
    cases side
    · exact Nat.lt_of_le_of_lt (Nat.le_add_right _ _) inside
    · exact Nat.le_trans (Nat.add_le_add_left (Nat.le_add_right _ _) _) (Nat.le_of_lt inside)

theorem takesAll_of_le (inside : position + total width taken ≤ stop) : TakesAll width .after stop position taken := by
  induction taken generalizing position with
  | nil => exact trivial
  | cons item taken ih =>
    rw [total_cons] at inside
    exact ⟨Nat.le_trans (Nat.add_le_add_left (Nat.le_add_right _ _) _) inside, ih (by omega)⟩

theorem takesAll_of_pos (pos : ∀ item ∈ taken, 0 < width item) (inside : position + total width taken ≤ stop) :
    TakesAll width side stop position taken := by
  induction taken generalizing position with
  | nil => exact trivial
  | cons item taken ih =>
    obtain ⟨first, pos⟩ := List.forall_mem_cons.mp pos
    rw [total_cons] at inside
    refine ⟨?_, ih pos (by omega)⟩
    cases side
    · show position < stop
      omega
    · show position + width item ≤ stop
      omega

theorem length_cut_fst (side : Side) (stop position : ℕ) (before : List α) (item : α) (after : List α) :
    before.length < (cut width side stop position (before ++ item :: after)).1.length ↔
      side.Takes stop (position + total width before) (width item) := by
  induction before generalizing position with
  | nil =>
    rw [nil_append, cut]
    split
    · rename_i takes
      simpa [total] using takes
    · rename_i beyond
      simpa [total] using beyond
  | cons first before ih =>
    rw [cons_append, cut, total_cons, ← Nat.add_assoc]
    split
    · rw [← ih]
      simp
    · rename_i beyond
      refine iff_of_false (by simp) fun takes => beyond ?_
      cases side
      · change _ < stop at takes
        change position < stop
        omega
      · change _ ≤ stop at takes
        change position + width first ≤ stop
        omega

theorem length_cut_fst_of_zero {before : List α} {item : α} (after : List α) (none : width item = 0)
    (isStop : position + total width before = stop) :
    before.length < (cut width side stop position (before ++ item :: after)).1.length ↔ side = .after := by
  rw [length_cut_fst, isStop, none]
  cases side
  · exact iff_of_false (Nat.lt_irrefl stop) nofun
  · exact iff_of_true (Nat.le_refl stop) rfl

namespace IsCut

theorem cut_eq (isCut : IsCut width side stop position taken left) :
    cut width side stop position (taken ++ left) = (taken, left) := by
  obtain ⟨takes, stops⟩ := isCut
  induction taken generalizing position with
  | nil =>
    cases left with
    | nil => rfl
    | cons item left => exact if_neg (stops item left rfl)
  | cons item taken ih =>
    obtain ⟨first, takes⟩ := takes
    simp only [total_cons, ← Nat.add_assoc] at stops
    rw [cons_append, cut, if_pos first, ih takes stops]
    rfl

end IsCut

end Warp.Cuts
