import Mathlib.Tactic

namespace Warp.Trace

universe u v

variable {S : Type u} {A : Type v} {step : S → A → S} {allowed : S → A → Prop} {s : S} {a : A} {as bs : List A}

def Every (step : S → A → S) (allowed : S → A → Prop) (s : S) : List A → Prop
  | [] => True
  | a :: as => allowed s a ∧ Every step allowed (step s a) as

instance [∀ s a, Decidable (allowed s a)] (s : S) (as : List A) : Decidable (Every step allowed s as) := by
  induction as generalizing s with
  | nil => exact .isTrue trivial
  | cons a as ih => exact inferInstanceAs (Decidable (_ ∧ _))

theorem every_append : Every step allowed s (as ++ bs) ↔
    Every step allowed s as ∧ Every step allowed (as.foldl step s) bs := by
  induction as generalizing s with
  | nil => simp [Every]
  | cons a as ih => rw [List.cons_append, Every, Every, List.foldl_cons, ih, and_assoc]

theorem every_and {allowed' : S → A → Prop} : Every step (fun s a => allowed s a ∧ allowed' s a) s as ↔
    Every step allowed s as ∧ Every step allowed' s as := by
  induction as generalizing s with
  | nil => simp [Every]
  | cons a as ih => rw [Every, Every, Every, ih, and_and_and_comm]

theorem Every.invariant {P : S → Prop} (keeps : ∀ s a, P s → allowed s a → P (step s a)) (start : P s)
    (every : Every step allowed s as) : P (as.foldl step s) := by
  induction as generalizing s with
  | nil => exact start
  | cons a as ih => exact ih (keeps s a start every.1) every.2

end Warp.Trace
