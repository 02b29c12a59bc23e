import Mathlib.Tactic

namespace Warp.Nesting

open List

universe u

variable {α : Type u} (opens closes : α → Bool)

/-- The first closing element that closes none of the elements before it; `depth` are open already. -/
def search : ℕ → List α → Option α
  | _, [] => none
  | depth, x :: xs =>
    if closes x && depth == 0 then some x
    else if opens x then search (depth + 1) xs
    else if closes x then search (depth - 1) xs
    else search depth xs

/-- Every closing element closes one of the `depth` or one before it, and none of these is left open. -/
structure ClosesAll (depth : ℕ) (inside : List α) : Prop where
  within : ∀ count, (inside.take count).countP closes ≤ depth + (inside.take count).countP opens
  all : inside.countP closes = depth + inside.countP opens

def Nested (inside : List α) : Prop := ClosesAll opens closes 0 inside

variable {opens closes} {x found : α} {xs inside : List α} {depth : ℕ}

theorem closesAll_nil : ClosesAll opens closes depth [] ↔ depth = 0 := by
  constructor
  · intro closed
    have all := closed.all
    rw [countP_nil, countP_nil] at all
    omega
  · rintro rfl
    exact ⟨fun count => by rw [take_nil, countP_nil]; omega, rfl⟩

theorem closesAll_cons :
    ClosesAll opens closes depth (x :: inside) ↔
      (closes x).toNat ≤ depth + (opens x).toNat ∧
        ClosesAll opens closes (depth + (opens x).toNat - (closes x).toNat) inside := by
  have counted (p : α → Bool) (ys : List α) : (x :: ys).countP p = (p x).toNat + ys.countP p := by
    rw [countP_cons, Nat.add_comm]
    cases p x <;> rfl
  constructor
  · intro closed
    have first := closed.within 1
    rw [take_succ_cons, take_zero, counted, counted, countP_nil, countP_nil] at first
    refine ⟨by omega, fun count => ?_, ?_⟩
    · have within := closed.within (count + 1)
      rw [take_succ_cons, counted, counted] at within
      omega
    · have all := closed.all
      rw [counted, counted] at all
      omega
  · rintro ⟨first, closed⟩
    refine ⟨fun count => ?_, ?_⟩
    · cases count with
      | zero => exact Nat.zero_le _
      | succ count =>
        have within := closed.within count
        rw [take_succ_cons, counted, counted]
        omega
    · have all := closed.all
      rw [counted, counted]
      omega

theorem Nested.reverse (nested : Nested opens closes inside) : Nested closes opens inside.reverse := by
  have all := nested.all
  refine ⟨fun count => ?_, ?_⟩
  · have split (p : α → Bool) :
        inside.countP p = (inside.take (inside.length - count)).countP p + (inside.reverse.take count).countP p := by
      rw [take_reverse, countP_reverse, ← countP_append, take_append_drop]
    have within := nested.within (inside.length - count)
    rw [split opens, split closes] at all
    omega
  · rw [countP_reverse, countP_reverse]
    omega

theorem search_cons (distinct : ∀ x, opens x = true → closes x = false) :
    search opens closes depth (x :: xs) =
      if closes x && depth == 0 then some x
      else search opens closes (depth + (opens x).toNat - (closes x).toNat) xs := by
  have noClose := distinct x
  rw [search]
  cases isOpen : opens x with
  | true =>
    rw [noClose isOpen]
    rfl
  | false => cases closes x <;> rfl

theorem search_eq_some_iff (distinct : ∀ x, opens x = true → closes x = false) :
    search opens closes depth xs = some found ↔
      ∃ inside after, xs = inside ++ found :: after ∧ closes found = true ∧ ClosesAll opens closes depth inside := by
  induction xs generalizing depth with
  | nil => simp [search]
  | cons x xs ih =>
    rw [search_cons distinct]
    by_cases here : closes x = true ∧ depth = 0
    · obtain ⟨isClose, rfl⟩ := here
      rw [isClose, Bool.true_and, if_pos (beq_self_eq_true 0)]
      constructor
      · intro isFound
        obtain rfl := Option.some.inj isFound
        exact ⟨[], xs, rfl, isClose, closesAll_nil.mpr rfl⟩
      · rintro ⟨inside, after, parts, foundCloses, closed⟩
        cases inside with
        | nil => rw [(List.cons.inj parts).1]
        | cons other inside =>
          obtain ⟨rfl, -⟩ := List.cons.inj parts
          have first := (closesAll_cons.mp closed).1
          have noOpen : opens x = false := by
            by_contra isOpen
            rw [distinct x (by simpa using isOpen)] at isClose
            cases isClose
          rw [isClose, noOpen] at first
          simp at first
    · have notHere : (closes x && depth == 0) = false := by
        rw [← Bool.not_eq_true, Bool.and_eq_true, beq_iff_eq]
        exact here
      rw [notHere, if_neg Bool.false_ne_true, ih]
      constructor
      · rintro ⟨inside, after, rfl, foundCloses, closed⟩
        refine ⟨x :: inside, after, rfl, foundCloses, closesAll_cons.mpr ⟨?_, closed⟩⟩
        by_cases isClose : closes x = true
        · have pending : depth ≠ 0 := fun atTop => here ⟨isClose, atTop⟩
          rw [isClose, Bool.toNat_true]
          omega
        · rw [Bool.eq_false_iff.mpr isClose, Bool.toNat_false]
          exact Nat.zero_le _
      · rintro ⟨inside, after, parts, foundCloses, closed⟩
        cases inside with
        | nil =>
          obtain ⟨rfl, -⟩ := List.cons.inj parts
          exact absurd ⟨foundCloses, closesAll_nil.mp closed⟩ here
        | cons other inside =>
          obtain ⟨rfl, rfl⟩ := List.cons.inj parts
          exact ⟨inside, after, rfl, foundCloses, (closesAll_cons.mp closed).2⟩

end Warp.Nesting
