import Warp.Lib.Lines

namespace Warp.Str

open List

def byteLen (s : Str) : ℕ := (s.map Char.utf8Size).sum

/-- Cuts after some bytes, if that is not inside of a character. -/
def splitBytes : Str → ℕ → Option (Str × Str)
  | s, 0 => some ([], s)
  | [], _ + 1 => none
  | c :: s, n + 1 =>
    if c.utf8Size ≤ n + 1 then (splitBytes s (n + 1 - c.utf8Size)).map fun parts => (c :: parts.1, parts.2) else none

/-- The text between two byte positions. Panics if they are not in order or not on character boundaries. -/
def byteSlice (s : Str) (start stop : ℕ) : Option Str :=
  if start ≤ stop then
    (splitBytes s start).bind fun parts => (splitBytes parts.2 (stop - start)).map Prod.fst
  else none

def IsBoundary (s : Str) (n : ℕ) : Prop := ∃ before after, s = before ++ after ∧ before.byteLen = n

section Slices

variable {s a b : Str} {n start stop first last : ℕ}

@[simp] theorem byteLen_nil : byteLen [] = 0 := rfl

@[simp] theorem byteLen_cons (c : Char) (s : Str) : byteLen (c :: s) = c.utf8Size + byteLen s := rfl

@[simp] theorem byteLen_append (a b : Str) : byteLen (a ++ b) = byteLen a + byteLen b := by
  unfold byteLen
  rw [map_append, List.sum_append]

theorem byteLen_eq_zero_iff : byteLen s = 0 ↔ s = [] := by
  cases s with
  | nil => simp
  | cons c s =>
    have := c.utf8Size_pos
    simp only [byteLen_cons, cons_ne_nil, iff_false]
    omega

theorem splitBytes_eq_some_iff : splitBytes s n = some (a, b) ↔ s = a ++ b ∧ byteLen a = n := by
  induction s generalizing n a b with
  | nil =>
    cases n with
    | zero =>
      simp only [splitBytes, Option.some.injEq, Prod.mk.injEq, byteLen_eq_zero_iff, nil_eq, append_eq_nil_iff]
      tauto
    | succ n =>
      simp only [splitBytes, nil_eq, append_eq_nil_iff]
      constructor
      · nofun
      · rintro ⟨⟨rfl, -⟩, len⟩
        cases len
  | cons c s ih =>
    have positive := c.utf8Size_pos
    cases n with
    | zero =>
      simp only [splitBytes, Option.some.injEq, Prod.mk.injEq, byteLen_eq_zero_iff]
      constructor
      · rintro ⟨rfl, rfl⟩
        exact ⟨rfl, rfl⟩
      · rintro ⟨parts, rfl⟩
        exact ⟨rfl, parts⟩
    | succ n =>
      unfold splitBytes
      constructor
      · intro found
        by_cases fits : c.utf8Size ≤ n + 1
        · rw [if_pos fits] at found
          obtain ⟨⟨front, back⟩, split, same⟩ := Option.map_eq_some_iff.mp found
          obtain ⟨rfl, len⟩ := ih.mp split
          injection same with isFront isBack
          subst isFront isBack
          refine ⟨rfl, ?_⟩
          rw [byteLen_cons, len]
          omega
        · rw [if_neg fits] at found
          cases found
      · rintro ⟨parts, len⟩
        cases a with
        | nil => cases len
        | cons d front =>
          rw [cons_append] at parts
          injection parts with same rest
          subst same
          rw [byteLen_cons] at len
          rw [if_pos (by omega), ih.mpr ⟨rest, by omega⟩]
          rfl

theorem isBoundary_iff : IsBoundary s n ↔ (splitBytes s n).isSome = true := by
  rw [Option.isSome_iff_exists]
  constructor
  · rintro ⟨before, after, parts, len⟩
    exact ⟨_, splitBytes_eq_some_iff.mpr ⟨parts, len⟩⟩
  · rintro ⟨⟨before, after⟩, split⟩
    obtain ⟨parts, len⟩ := splitBytes_eq_some_iff.mp split
    exact ⟨before, after, parts, len⟩

instance : Decidable (IsBoundary s n) := decidable_of_iff _ isBoundary_iff.symm

variable {mid : Str}

theorem byteSlice_eq_some_iff :
    byteSlice s start stop = some mid ↔
      ∃ before after, s = before ++ mid ++ after ∧ byteLen before = start ∧ start + byteLen mid = stop := by
  unfold byteSlice
  constructor
  · intro found
    by_cases inOrder : start ≤ stop
    · rw [if_pos inOrder] at found
      obtain ⟨⟨before, rest⟩, cut, found⟩ := Option.bind_eq_some_iff.mp found
      obtain ⟨⟨front, after⟩, split, rfl⟩ := Option.map_eq_some_iff.mp found
      obtain ⟨rfl, atStart⟩ := splitBytes_eq_some_iff.mp cut
      obtain ⟨rfl, len⟩ := splitBytes_eq_some_iff.mp split
      exact ⟨before, after, (append_assoc _ _ _).symm, atStart, by dsimp only; omega⟩
    · rw [if_neg inOrder] at found
      cases found
  · rintro ⟨before, after, rfl, rfl, rfl⟩
    rw [if_pos (Nat.le_add_right _ _), splitBytes_eq_some_iff.mpr ⟨append_assoc _ _ _, rfl⟩, Option.bind_some,
      Nat.add_sub_cancel_left, splitBytes_eq_some_iff.mpr ⟨rfl, rfl⟩]
    rfl

theorem byteLen_of_byteSlice (sliced : byteSlice s start stop = some mid) :
    start + byteLen mid = stop := by
  obtain ⟨-, -, -, -, len⟩ := byteSlice_eq_some_iff.mp sliced
  exact len

theorem isBoundary_of_byteSlice (sliced : byteSlice s start stop = some mid) :
    IsBoundary s start ∧ IsBoundary s stop := by
  obtain ⟨before, after, rfl, atStart, len⟩ := byteSlice_eq_some_iff.mp sliced
  refine ⟨⟨before, mid ++ after, append_assoc _ _ _, atStart⟩, before ++ mid, after, rfl, ?_⟩
  rw [byteLen_append, atStart, len]

theorem exists_byteSlice (atStart : IsBoundary s start) (atStop : IsBoundary s stop) (inOrder : start ≤ stop) :
    ∃ mid, byteSlice s start stop = some mid := by
  obtain ⟨before, rest, rfl, rfl⟩ := atStart
  obtain ⟨front, after, parts, rfl⟩ := atStop
  rcases List.append_eq_append_iff.mp parts with ⟨mid, rfl, rfl⟩ | ⟨more, rfl, rfl⟩
  · exact ⟨mid, byteSlice_eq_some_iff.mpr ⟨before, after, (append_assoc _ _ _).symm, rfl, by rw [byteLen_append]⟩⟩
  · rw [byteLen_append] at inOrder ⊢
    have nothing : more = [] := byteLen_eq_zero_iff.mp (by omega)
    subst nothing
    refine ⟨[], byteSlice_eq_some_iff.mpr ⟨front, rest, ?_, ?_, ?_⟩⟩ <;> simp

end Slices

end Warp.Str
