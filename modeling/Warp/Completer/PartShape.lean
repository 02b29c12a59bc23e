import Warp.Completer.Reading

namespace Warp.Completer

open List

variable {source : Str} {start pos stop : ℕ} {shape kind : Shape} {part : Spanned Part}

def Spanned.flat (part : Spanned Part) : List (Spanned Part) :=
  match part.item with
  | .concatenated inner => inner
  | _ => [part]

def PartBuilder.count (b : PartBuilder) : ℕ := b.subParts.length + if b.buffer = [] then 0 else 1

def Spanned.Fits (part : Spanned Part) (start stop : ℕ) : Shape → Prop
  | .empty | .opened | .run => False
  | .quoted => ∃ value, part = ⟨.literal value, ⟨start, stop⟩⟩
  | .substitution => ∃ commands, part = ⟨.closedSubshell commands, ⟨start, stop⟩⟩
  | .bare => ∃ commands, part.item = .closedSubshell commands
  | .mixed => ∃ inner, part = ⟨.concatenated inner, ⟨start, stop⟩⟩ ∧ 2 ≤ inner.length

namespace PartBuilder

variable {b : PartBuilder}

def Holds (b : PartBuilder) (start pos : ℕ) : Shape → Prop
  | .empty => b = .new start ∧ pos = start
  | .opened => b = .new start
  | .run => b.start = start ∧ b.subParts = [] ∧ b.buffer ≠ [] ∧ b.bufferStart = start
  | .quoted => b.start = start ∧ b.buffer = [] ∧ ∃ value, b.subParts = [⟨.literal value, ⟨start, pos⟩⟩]
  | .substitution => b.start = start ∧ b.buffer = [] ∧ ∃ commands, b.subParts = [⟨.closedSubshell commands, ⟨start, pos⟩⟩]
  | .bare => b.start = start ∧ b.buffer = [] ∧ ∃ commands span, b.subParts = [⟨.closedSubshell commands, span⟩]
  | .mixed => b.start = start ∧ 2 ≤ b.count

theorem new_holds (start : ℕ) : (new start).Holds start start .empty := ⟨rfl, rfl⟩

theorem Holds.start_eq (holds : b.Holds start pos shape) : b.start = start := by
  cases shape with
  | empty => rw [holds.1]; rfl
  | opened => rw [holds]; rfl
  | _ => exact holds.1

theorem Holds.occupied (holds : b.Holds start pos shape) (filled : shape ≠ .empty) (filled' : shape ≠ .opened) :
    1 ≤ b.count := by
  unfold count
  cases shape with
  | empty => exact absurd rfl filled
  | opened => exact absurd rfl filled'
  | run => simp [holds.2.2.1]
  | quoted =>
    obtain ⟨-, -, value, single⟩ := holds
    simp [single]
  | substitution =>
    obtain ⟨-, -, commands, single⟩ := holds
    simp [single]
  | bare =>
    obtain ⟨-, -, commands, span, single⟩ := holds
    simp [single]
  | mixed => exact Nat.le_of_succ_le holds.2

theorem addRaw_holds (holds : b.Holds start pos shape) {value : Str} (text : value ≠ []) :
    (b.addRaw value).Holds start stop shape.addRaw := by
  have nonempty : b.buffer ++ value ≠ [] := append_ne_nil_of_right_ne_nil _ text
  have counted : (b.addRaw value).count = b.subParts.length + 1 := by simp [count, addRaw, nonempty]
  cases shape with
  | empty => exact ⟨by rw [holds.1]; rfl, by rw [holds.1]; rfl, nonempty, by rw [holds.1]; rfl⟩
  | opened => exact ⟨by rw [holds]; rfl, by rw [holds]; rfl, nonempty, by rw [holds]; rfl⟩
  | run => exact ⟨holds.1, holds.2.1, nonempty, holds.2.2.2⟩
  | quoted =>
    obtain ⟨begins, -, text, single⟩ := holds
    exact ⟨begins, by simp [counted, single]⟩
  | substitution =>
    obtain ⟨begins, -, commands, single⟩ := holds
    exact ⟨begins, by simp [counted, single]⟩
  | bare =>
    obtain ⟨begins, -, commands, span, single⟩ := holds
    exact ⟨begins, by simp [counted, single]⟩
  | mixed =>
    refine ⟨holds.1, Nat.le_trans holds.2 ?_⟩
    rw [counted]
    unfold count
    split_ifs <;> omega

def settled (b : PartBuilder) (stop : ℕ) : List (Spanned Part) :=
  if b.buffer = [] then b.subParts else b.subParts ++ [⟨.literal b.buffer, ⟨b.bufferStart, stop⟩⟩]

theorem settled_length (b : PartBuilder) (stop : ℕ) : (b.settled stop).length = b.count := by
  unfold settled count
  split_ifs <;> simp

theorem addPart_eq (b : PartBuilder) (part : Spanned Part) :
    b.addPart part = ⟨b.start, [], part.span.stop, b.settled part.span.start ++ part.flat⟩ := by
  obtain ⟨item, span⟩ := part
  cases item <;> rfl

theorem flat_length (fits : part.Fits start stop kind) : 1 ≤ part.flat.length := by
  unfold Spanned.flat
  cases kind with
  | empty | opened | run => exact fits.elim
  | quoted | substitution =>
    obtain ⟨_, rfl⟩ := fits
    exact Nat.le_refl 1
  | bare =>
    obtain ⟨commands, isShell⟩ := fits
    rw [isShell]
    exact Nat.le_refl 1
  | mixed =>
    obtain ⟨inner, rfl, several⟩ := fits
    exact Nat.le_of_succ_le several

theorem addPart_new (fits : part.Fits start stop kind) : ((new start).addPart part).Holds start stop kind := by
  rw [addPart_eq]
  cases kind with
  | empty | opened | run => exact fits.elim
  | quoted =>
    obtain ⟨value, rfl⟩ := fits
    exact ⟨rfl, rfl, value, rfl⟩
  | substitution =>
    obtain ⟨commands, rfl⟩ := fits
    exact ⟨rfl, rfl, commands, rfl⟩
  | bare =>
    obtain ⟨commands, isShell⟩ := fits
    obtain ⟨item, span⟩ := part
    subst isShell
    exact ⟨rfl, rfl, commands, span, rfl⟩
  | mixed =>
    obtain ⟨inner, rfl, several⟩ := fits
    refine ⟨rfl, ?_⟩
    simpa [count, settled, new, Spanned.flat] using several

theorem addPart_holds (holds : b.Holds start pos shape) (fits : part.Fits pos stop kind)
    (inQuotes : shape = .opened → kind = .bare) : (b.addPart part).Holds start stop (shape.addPart kind) := by
  by_cases unfilled : shape = .empty ∨ shape = .opened
  · rcases unfilled with rfl | rfl
    · obtain ⟨rfl, rfl⟩ := holds
      exact addPart_new fits
    · rw [inQuotes rfl] at fits ⊢
      rw [holds]
      exact @addPart_new start stop .bare part fits
  · rw [not_or] at unfilled
    have added := flat_length fits
    have occupied := holds.occupied unfilled.1 unfilled.2
    have several : shape.addPart kind = .mixed := by
      cases shape <;> first | rfl | exact absurd rfl unfilled.1 | exact absurd rfl unfilled.2
    rw [several, addPart_eq]
    refine ⟨holds.start_eq, ?_⟩
    simp only [count, length_append, settled_length, if_true]
    unfold count at occupied
    omega

theorem complete_eq (b : PartBuilder) (stop : ℕ) : b.complete stop =
    match b.settled stop with
    | [] => ⟨.literal [], ⟨b.start, stop⟩⟩
    | [part] => part
    | parts => ⟨.concatenated parts, ⟨b.start, stop⟩⟩ := by
  unfold complete settled
  generalize (if b.buffer = [] then b.subParts else b.subParts ++ [⟨.literal b.buffer, ⟨b.bufferStart, stop⟩⟩]) = parts
  rcases parts with _ | ⟨first, _ | ⟨second, rest⟩⟩ <;> rfl

theorem complete_fits (holds : b.Holds start pos shape) (ends : shape = .quoted ∨ shape = .substitution → stop = pos) :
    (b.complete stop).Fits start stop shape.close := by
  rw [complete_eq]
  cases shape with
  | empty =>
    rw [holds.1]
    exact ⟨[], rfl⟩
  | opened =>
    rw [holds]
    exact ⟨[], rfl⟩
  | run =>
    obtain ⟨begins, nothing, text, fromStart⟩ := holds
    rw [settled, if_neg text, nothing, fromStart]
    exact ⟨b.buffer, rfl⟩
  | quoted =>
    obtain ⟨begins, nothing, value, single⟩ := holds
    rw [settled, if_pos nothing, single, ends (.inl rfl)]
    exact ⟨value, rfl⟩
  | substitution =>
    obtain ⟨begins, nothing, commands, single⟩ := holds
    rw [settled, if_pos nothing, single, ends (.inr rfl)]
    exact ⟨commands, rfl⟩
  | bare =>
    obtain ⟨begins, nothing, commands, span, single⟩ := holds
    rw [settled, if_pos nothing, single]
    exact ⟨commands, rfl⟩
  | mixed =>
    obtain ⟨begins, several⟩ := holds
    have counted := b.settled_length stop
    rw [begins]
    match parts : b.settled stop with
    | [] => rw [parts, length_nil] at counted; omega
    | [part] => rw [parts, length_singleton] at counted; omega
    | first :: second :: rest =>
      refine ⟨first :: second :: rest, rfl, ?_⟩
      rw [← parts, counted]
      exact several

end PartBuilder

theorem nestedTexts_append (parts more : List (Spanned Part)) :
    nestedTexts source (parts ++ more) = nestedTexts source parts ++ nestedTexts source more := by
  induction parts with
  | nil => rfl
  | cons part parts ih => rw [cons_append, nestedTexts, nestedTexts, ih, append_assoc]

theorem decomposeAll_append (commands more : List (Spanned Command)) :
    decomposeAll source (commands ++ more) = decomposeAll source commands ++ decomposeAll source more := by
  induction commands with
  | nil => rfl
  | cons command commands ih => rw [cons_append, decomposeAll, decomposeAll, ih, append_assoc]

theorem nestedTexts_singleton (part : Spanned Part) : nestedTexts source [part] = part.item.texts source := by
  obtain ⟨item, span⟩ := part
  rw [nestedTexts, nestedTexts, append_nil]

theorem flat_texts (part : Spanned Part) : nestedTexts source part.flat ⊆ part.item.texts source := by
  obtain ⟨item, span⟩ := part
  cases item with
  | concatenated inner =>
    rw [Part.texts]
    exact fun text inside => mem_append_right _ (mem_append_left _ inside)
  | _ =>
    intro text inside
    rwa [Spanned.flat, nestedTexts_singleton] at inside

theorem settled_texts (b : PartBuilder) (stop : ℕ) :
    nestedTexts source (b.settled stop) = nestedTexts source b.subParts := by
  unfold PartBuilder.settled
  split_ifs
  · rfl
  · rw [nestedTexts_append, nestedTexts_singleton, Part.texts, append_nil]

theorem addPart_texts (b : PartBuilder) (part : Spanned Part) :
    nestedTexts source (b.addPart part).subParts = nestedTexts source b.subParts ++ nestedTexts source part.flat := by
  rw [PartBuilder.addPart_eq, nestedTexts_append, settled_texts]

theorem complete_texts {b : PartBuilder} (holds : b.Holds start pos shape) (stop : ℕ) :
    nestedTexts source b.subParts ⊆ nestedTexts source (b.complete stop).flat := by
  rw [← settled_texts b stop, PartBuilder.complete_eq]
  match parts : b.settled stop with
  | [] => exact nil_subset _
  | first :: second :: rest => exact List.Subset.refl _
  | [part] =>
    have flat : part.flat = [part] := by
      unfold PartBuilder.settled at parts
      split_ifs at parts with nothing
      · cases shape with
        | empty =>
          rw [holds.1] at parts
          cases parts
        | opened =>
          rw [holds] at parts
          cases parts
        | run => exact absurd nothing holds.2.2.1
        | quoted =>
          obtain ⟨-, -, value, single⟩ := holds
          rw [single] at parts
          cases parts
          rfl
        | substitution =>
          obtain ⟨-, -, commands, single⟩ := holds
          rw [single] at parts
          cases parts
          rfl
        | bare =>
          obtain ⟨-, -, commands, span, single⟩ := holds
          rw [single] at parts
          cases parts
          rfl
        | mixed =>
          have several := holds.2
          simp [PartBuilder.count, nothing, parts] at several
      · obtain ⟨-, isPart⟩ := List.append_eq_singleton_iff.mp parts |>.resolve_right fun h => by simp at h
        cases isPart
        rfl
    rw [flat]
    exact List.Subset.refl _

end Warp.Completer
