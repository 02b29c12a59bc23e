import Mathlib.Tactic

namespace Warp.Transducer

open Option

universe u v w

variable {S : Type u} {B : Type v} {C : Type w} {step : S → B → Option (S × List C)} {s s' s'' : S} {b : B} {bs more : List B}
  {out later : List C}

def after (out : List C) (reached : S × List C) : S × List C := (reached.1, out ++ reached.2)

@[simp] theorem after_nil : after (S := S) ([] : List C) = id := rfl

theorem after_after : after (S := S) out ∘ after later = after (out ++ later) :=
  funext fun _ => Prod.ext rfl (List.append_assoc _ _ _).symm

/-- The state after a list of inputs and all that was put out on the way. A step that has no result ends the run. -/
def feed (step : S → B → Option (S × List C)) (s : S) : List B → Option (S × List C)
  | [] => some (s, [])
  | b :: bs => (step s b).bind fun moved => (feed step moved.1 bs).map (after moved.2)

@[simp] theorem feed_nil : feed step s [] = some (s, []) := rfl

theorem feed_cons (moves : step s b = some (s', out)) : feed step s (b :: bs) = (feed step s' bs).map (after out) := by
  rw [feed, moves]
  rfl

theorem feed_cons_silent (moves : step s b = some (s', [])) : feed step s (b :: bs) = feed step s' bs := by
  rw [feed_cons moves, after_nil, Option.map_id]
  rfl

theorem feed_singleton (moves : step s b = some (s', out)) : feed step s [b] = some (s', out) :=
  (feed_cons moves).trans (congrArg (fun out => some (s', out)) (List.append_nil out))

theorem feed_append : feed step s (bs ++ more) =
    (feed step s bs).bind fun reached => (feed step reached.1 more).map (after reached.2) := by
  induction bs generalizing s with
  | nil =>
    show feed step s more = (feed step s more).map (after [])
    rw [after_nil, Option.map_id]
    rfl
  | cons b bs ih =>
    rw [List.cons_append, feed, feed]
    cases step s b with
    | none => rfl
    | some moved =>
      rw [bind_some, bind_some, ih]
      cases feed step moved.1 bs with
      | none => rfl
      | some reached =>
        rw [bind_some, map_some, bind_some, Option.map_map, after_after]
        rfl

theorem feed_append_of_some (first : feed step s bs = some (s', out)) :
    feed step s (bs ++ more) = (feed step s' more).map (after out) := by
  rw [feed_append, first]
  rfl

theorem feed_trans (first : feed step s bs = some (s', out)) (second : feed step s' more = some (s'', later)) :
    feed step s (bs ++ more) = some (s'', out ++ later) := by
  rw [feed_append_of_some first, second]
  rfl

theorem feed_append_none (fails : feed step s bs = none) : feed step s (bs ++ more) = none := by
  rw [feed_append, fails]
  rfl

theorem feed_flatten {chunks : List (List B)} : feed step s chunks.flatten = feed (feed step) s chunks := by
  induction chunks generalizing s with
  | nil => rfl
  | cons chunk chunks ih =>
    rw [List.flatten_cons, feed_append, feed]
    exact congrArg _ (funext fun reached => congrArg _ ih)

theorem feed_filter {keeps : B → Bool} (ignored : ∀ s b, keeps b = false → step s b = some (s, [])) :
    feed step s (bs.filter keeps) = feed step s bs := by
  induction bs generalizing s with
  | nil => rfl
  | cons b bs ih =>
    cases kept : keeps b with
    | true =>
      rw [List.filter_cons_of_pos kept, feed, feed]
      exact congrArg _ (funext fun moved => congrArg _ ih)
    | false =>
      rw [List.filter_cons_of_neg (by simp [kept]), feed_cons_silent (ignored s b kept), ih]

def Meets (step : S → B → Option (S × List C)) (fits : S → B → Prop) (s : S) : List B → Prop
  | [] => True
  | b :: bs => fits s b ∧ ∀ moved, step s b = some moved → Meets step fits moved.1 bs

theorem feed_isSome_iff {fits : S → B → Prop} (exact : ∀ s b, (step s b).isSome ↔ fits s b) :
    (feed step s bs).isSome ↔ Meets step fits s bs := by
  induction bs generalizing s with
  | nil => exact iff_of_true rfl trivial
  | cons b bs ih =>
    rw [Meets, ← exact, feed]
    cases moves : step s b with
    | none => exact iff_of_false Bool.false_ne_true fun meets => Bool.false_ne_true meets.1
    | some moved =>
      rw [bind_some, isSome_map, ih]
      constructor
      · intro meets
        refine ⟨rfl, fun other same => ?_⟩
        rw [← Option.some_inj.mp same]
        exact meets
      · exact fun meets => meets.2 moved rfl

end Warp.Transducer
