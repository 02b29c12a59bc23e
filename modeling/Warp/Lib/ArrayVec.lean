import Mathlib.Tactic

namespace Warp.ArrayVec

universe u

variable {α : Type u}

/-- A vector of fixed capacity is a list; an operation that would exceed the capacity panics. -/
def push (cap : ℕ) (xs : List α) (x : α) : Option (List α) :=
  if xs.length < cap then some (xs ++ [x]) else none

def extend (cap : ℕ) (xs ys : List α) : Option (List α) :=
  if xs.length + ys.length ≤ cap then some (xs ++ ys) else none

def collect (cap : ℕ) (ys : List α) : Option (List α) := extend cap [] ys

theorem push_of_lt {cap : ℕ} {xs : List α} (h : xs.length < cap) (x : α) :
    push cap xs x = some (xs ++ [x]) := by
  simp [push, h]

theorem extend_of_le {cap : ℕ} {xs ys : List α} (h : xs.length + ys.length ≤ cap) :
    extend cap xs ys = some (xs ++ ys) := by
  simp [extend, h]

theorem collect_of_le {cap : ℕ} {ys : List α} (h : ys.length ≤ cap) : collect cap ys = some ys := by
  simp [collect, extend, h]

end Warp.ArrayVec
