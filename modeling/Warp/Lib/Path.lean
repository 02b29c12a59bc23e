import Warp.Lib.Lines

namespace Warp

open List

abbrev Path := List Str

namespace Path

def parent (self : Path) : Option Path := if self = [] then none else some self.dropLast

def ancestors (self : Path) : List Path := self.inits.reverse

def startsWith (self base : Path) : Bool := base.isPrefixOf self

theorem startsWith_iff {self base : Path} : self.startsWith base = true ↔ base <+: self := isPrefixOf_iff_prefix

theorem parent_eq_some_iff {self base : Path} : self.parent = some base ↔ ∃ name, self = base ++ [name] := by
  unfold parent
  rcases eq_nil_or_concat self with rfl | ⟨init, name, rfl⟩
  · simp
  · rw [concat_eq_append, if_neg (append_ne_nil_of_right_ne_nil _ (cons_ne_nil _ _)), dropLast_concat,
      Option.some_inj]
    constructor
    · rintro rfl
      exact ⟨name, rfl⟩
    · rintro ⟨other, same⟩
      exact (append_inj' same rfl).1

theorem not_concat_prefix {self : Path} {name : Str} (isPrefix : self ++ [name] <+: self) : False := by
  have := isPrefix.length_le
  rw [length_append, length_singleton] at this
  omega

theorem ne_of_parent {self base : Path} (isParent : self.parent = some base) : base ≠ self := by
  rintro rfl
  obtain ⟨name, split⟩ := parent_eq_some_iff.mp isParent
  have below : base ++ [name] <+: base := by rw [← split]
  exact not_concat_prefix below

theorem prefix_unique {self base other : Path} (isPrefix : base <+: self) (otherPrefix : other <+: self)
    (same : base.length = other.length) : base = other :=
  (prefix_of_prefix_length_le isPrefix otherPrefix (Nat.le_of_eq same)).eq_of_length same

end Path

end Warp
