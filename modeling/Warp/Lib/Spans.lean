import Mathlib.Tactic

namespace Warp

open List

structure Span (α : Type) where
  start : ℕ
  stop : ℕ
  value : α
deriving DecidableEq

namespace Span

variable {α : Type} {spans : List (Span α)} {first last start stop p : ℕ} {v : α} {mark : ℕ → α}

def holds (self : Span α) (p : ℕ) : Bool := self.start ≤ p && p < self.stop

def valuesAt (spans : List (Span α)) (p : ℕ) : List α := (spans.filter (·.holds p)).map value

theorem valuesAt_push : valuesAt (spans ++ [⟨start, stop, v⟩]) p =
    valuesAt spans p ++ if start ≤ p ∧ p < stop then [v] else [] := by
  unfold valuesAt
  rw [filter_append, map_append]
  congr 1
  by_cases inside : start ≤ p ∧ p < stop
  · simp [holds, inside]
  · rw [if_neg inside]
    simp only [filter_cons, holds, Bool.and_eq_true, decide_eq_true_eq, if_neg inside, filter_nil, map_nil]

/-- Every position from the first to the last one has its mark once, and no position has anything after them. -/
structure Tiles (spans : List (Span α)) (first last : ℕ) (mark : ℕ → α) : Prop where
  inside : ∀ p, first ≤ p → p < last → valuesAt spans p = [mark p]
  after : ∀ p, last ≤ p → valuesAt spans p = []

namespace Tiles

theorem empty (nothing : ∀ p, first ≤ p → valuesAt spans p = []) : Tiles spans first first mark where
  inside p low high := absurd low (by omega)
  after := nothing

theorem push (tiles : Tiles spans first last mark) (le : last ≤ stop)
    (marked : ∀ p, last ≤ p → p < stop → mark p = v) : Tiles (spans ++ [⟨last, stop, v⟩]) first stop mark where
  inside p low high := by
    rw [valuesAt_push]
    by_cases old : p < last
    · rw [tiles.inside p low old, if_neg (by omega), append_nil]
    · rw [tiles.after p (by omega), if_pos ⟨by omega, high⟩, nil_append, marked p (by omega) high]
  after p beyond := by
    rw [valuesAt_push, tiles.after p (by omega), if_neg (by omega)]
    rfl

theorem pushSome (tiles : Tiles spans first last mark) (marked : ∀ p, last ≤ p → p < stop → mark p = v) :
    Tiles (if last < stop then spans ++ [⟨last, stop, v⟩] else spans) first (max last stop) mark := by
  by_cases some : last < stop
  · rw [if_pos some, Nat.max_eq_right (by omega)]
    exact tiles.push (by omega) marked
  · rw [if_neg some, Nat.max_eq_left (by omega)]
    exact tiles

end Tiles

end Span

end Warp
