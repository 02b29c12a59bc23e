import Mathlib.Tactic

namespace Warp.Checked

universe u v

variable {α : Type u} {β : Type v}

/-! Operations that panic out of range. A panic has no result. -/

def index (xs : List α) (i : ℕ) : Option α := xs[i]?

def sliceFrom (xs : List α) (start : ℕ) : Option (List α) := if start ≤ xs.length then some (xs.drop start) else none

def sliceTo (xs : List α) (stop : ℕ) : Option (List α) := if stop ≤ xs.length then some (xs.take stop) else none

def slice (xs : List α) (start stop : ℕ) : Option (List α) :=
  if start ≤ stop ∧ stop ≤ xs.length then some ((xs.take stop).drop start) else none

def sub (a b : ℕ) : Option ℕ := if b ≤ a then some (a - b) else none

def add (bits a b : ℕ) : Option ℕ := if a + b < 2 ^ bits then some (a + b) else none

def mul (bits a b : ℕ) : Option ℕ := if a * b < 2 ^ bits then some (a * b) else none

def div (a b : ℕ) : Option ℕ := if b = 0 then none else some (a / b)

/-- Bits that leave the word are lost, but a shift by the width of the word panics. -/
def shiftLeft (bits value amount : ℕ) : Option ℕ := if amount < bits then some (value * 2 ^ amount % 2 ^ bits) else none

def shiftRight (bits value amount : ℕ) : Option ℕ := if amount < bits then some (value / 2 ^ amount) else none

/-- The question mark: an early exit with no value, which is no panic. -/
def early (x : Option (Option α)) (next : α → Option (Option β)) : Option (Option β) :=
  x.bind fun
    | none => some none
    | some a => next a

variable {xs : List α}

theorem index_eq {i : ℕ} (bound : i < xs.length) : index xs i = some xs[i] := List.getElem?_eq_getElem bound

theorem sliceFrom_eq {start : ℕ} (bound : start ≤ xs.length) : sliceFrom xs start = some (xs.drop start) :=
  if_pos bound

theorem sliceTo_eq {stop : ℕ} (bound : stop ≤ xs.length) : sliceTo xs stop = some (xs.take stop) := if_pos bound

theorem slice_eq {start stop : ℕ} (order : start ≤ stop) (bound : stop ≤ xs.length) :
    slice xs start stop = some ((xs.take stop).drop start) := if_pos ⟨order, bound⟩

theorem sub_eq {a b : ℕ} (bound : b ≤ a) : sub a b = some (a - b) := if_pos bound

theorem add_eq {bits a b : ℕ} (bound : a + b < 2 ^ bits) : add bits a b = some (a + b) := if_pos bound

theorem mul_eq {bits a b : ℕ} (bound : a * b < 2 ^ bits) : mul bits a b = some (a * b) := if_pos bound

theorem div_eq {a b : ℕ} (bound : b ≠ 0) : div a b = some (a / b) := if_neg bound

@[simp] theorem early_panic (next : α → Option (Option β)) : early none next = none := rfl

@[simp] theorem early_none (next : α → Option (Option β)) : early (some none) next = some none := rfl

@[simp] theorem early_some (a : α) (next : α → Option (Option β)) : early (some (some a)) next = next a := rfl

theorem early_isSome {x : Option (Option α)} {next : α → Option (Option β)} (first : x.isSome) (later : ∀ a, (next a).isSome) :
    (early x next).isSome := by
  obtain ⟨value, rfl⟩ := Option.isSome_iff_exists.mp first
  cases value with
  | none => rfl
  | some a => exact later a

theorem bind_isSome {x : Option α} {next : α → Option β} (first : x.isSome) (later : ∀ a, x = some a → (next a).isSome) :
    (x.bind next).isSome := by
  obtain ⟨a, rfl⟩ := Option.isSome_iff_exists.mp first
  exact later a rfl

theorem ite_isSome {p : Prop} [Decidable p] {x y : Option α} (left : p → x.isSome) (right : ¬ p → y.isSome) :
    (if p then x else y).isSome := by
  by_cases holds : p
  · rw [if_pos holds]
    exact left holds
  · rw [if_neg holds]
    exact right holds

theorem foldlM_isSome {f : β → α → Option β} (step : ∀ b a, (f b a).isSome) (xs : List α) (b : β) :
    (xs.foldlM f b).isSome := by
  induction xs generalizing b with
  | nil => rfl
  | cons x xs ih =>
    rw [List.foldlM_cons]
    exact bind_isSome (step b x) fun b _ => ih b

theorem foldlM_keeps {motive : β → Prop} {f : β → α → Option β} {xs : List α} {b final : β}
    (step : ∀ x ∈ xs, ∀ before after, motive before → f before x = some after → motive after) (start : motive b)
    (ran : xs.foldlM f b = some final) : motive final := by
  induction xs generalizing b with
  | nil =>
    obtain rfl := Option.some_inj.mp ran
    exact start
  | cons x xs ih =>
    rw [List.foldlM_cons] at ran
    obtain ⟨middle, first, rest⟩ := Option.bind_eq_some_iff.mp ran
    obtain ⟨stepFirst, stepRest⟩ := List.forall_mem_cons.mp step
    exact ih stepRest (stepFirst b middle start first) rest

/-- The parts before and after the first element that satisfies the predicate. -/
def splitOnce (p : α → Bool) (xs : List α) : Option (Option (List α × List α)) :=
  match xs.findIdx? p with
  | none => some none
  | some position => do
    let before ← sliceTo xs position
    let after ← sliceFrom xs (position + 1)
    some (some (before, after))

theorem splitOnce_isSome (p : α → Bool) (xs : List α) : (splitOnce p xs).isSome := by
  unfold splitOnce
  cases found : xs.findIdx? p with
  | none => rfl
  | some position =>
    have bound : position < xs.length := (List.findIdx?_eq_some_iff_getElem.mp found).1
    dsimp only
    rw [sliceTo_eq (Nat.le_of_lt bound), sliceFrom_eq bound]
    rfl

end Warp.Checked
