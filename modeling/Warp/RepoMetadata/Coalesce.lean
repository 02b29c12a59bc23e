import Warp.Lib.Trace
import Warp.RepoMetadata.Update

namespace Warp.RepoMetadata.RepositoryUpdate

variable {Content : Type} {base now next : FileSystem Content} {acc acc' incoming : RepositoryUpdate} {p file : TargetFile}

theorem holds_iff : acc.Holds file ↔ file ∈ acc.added ∨ file ∈ acc.modified ∨ (acc.moved.get? file).isSome := by
  unfold Holds
  rw [HashMap.get?_isSome_iff]

theorem removes_iff : acc.Removes file ↔ file ∈ acc.deleted ∨ ∃ target, acc.moved.get? target = some file := by
  unfold Removes
  rw [List.mem_map]
  apply or_congr_right
  constructor
  · rintro ⟨⟨target, source⟩, member, rfl⟩
    exact ⟨target, HashMap.get?_eq_some_iff.mpr member⟩
  · rintro ⟨target, known⟩
    exact ⟨(target, file), HashMap.get?_eq_some_iff.mp known, rfl⟩

def Lossless (base : FileSystem Content) (self : RepositoryUpdate) (file : TargetFile) : Prop :=
  (base file.path).isNone ∨ self.Removes file

def forgetMove (self : RepositoryUpdate) (target : TargetFile) : RepositoryUpdate :=
  { self with moved := self.moved.remove target }

/-- The move to the file may be forgotten: its source is recorded otherwise. -/
def MayForget (base : FileSystem Content) (self : RepositoryUpdate) (target : TargetFile) : Prop :=
  ∀ source ∈ self.moved.get? target, source = target ∨
    (self.forgetMove target).Holds source ∨ (self.forgetMove target).Lossless base source

instance (base : FileSystem Content) (self : RepositoryUpdate) (file : TargetFile) : Decidable (self.Lossless base file) :=
  inferInstanceAs (Decidable (_ ∨ _))

instance (base : FileSystem Content) (self : RepositoryUpdate) (target : TargetFile) :
    Decidable (self.MayForget base target) :=
  inferInstanceAs (Decidable (∀ source ∈ self.moved.get? target, _))

/-- What a part of a merge does to the files that are reported, and to those that are gone. -/
structure Effect (base : FileSystem Content) (appears leaves : TargetFile → Prop) (acc acc' : RepositoryUpdate) : Prop where
  holds : ∀ file, acc'.Holds file ↔ appears file ∨ acc.Holds file ∧ ¬ leaves file
  lossless : ∀ file, ¬ acc'.Holds file → (acc'.Lossless base file ↔ leaves file ∨ acc.Lossless base file)

namespace Effect

theorem refl (base : FileSystem Content) (acc : RepositoryUpdate) :
    Effect base (fun _ => False) (fun _ => False) acc acc := by
  constructor <;> simp

theorem trans {appears leaves appears' leaves' : TargetFile → Prop} {t : RepositoryUpdate}
    (first : Effect base appears leaves acc t) (second : Effect base appears' leaves' t acc') :
    Effect base (fun file => appears' file ∨ appears file ∧ ¬ leaves' file) (fun file => leaves file ∨ leaves' file) acc acc' := by
  constructor
  · intro file
    rw [second.holds, first.holds]
    tauto
  · intro file absent
    rw [second.lossless file absent]
    rw [second.holds] at absent
    by_cases held : t.Holds file
    · tauto
    · rw [first.lossless file held]
      tauto

theorem congr {appears leaves appears' leaves' : TargetFile → Prop} (effect : Effect base appears leaves acc acc')
    (sameAppears : ∀ file, appears file ↔ appears' file) (sameLeaves : ∀ file, leaves file ↔ leaves' file) :
    Effect base appears' leaves' acc acc' := by
  have appears : appears = appears' := funext fun file => propext (sameAppears file)
  have leaves : leaves = leaves' := funext fun file => propext (sameLeaves file)
  exact appears ▸ leaves ▸ effect

end Effect

theorem MayForget.lossless {target : TargetFile} (may : acc.MayForget base target) (other : file ≠ target)
    (absent : ¬ (acc.forgetMove target).Holds file) :
    (acc.forgetMove target).Lossless base file ↔ acc.Lossless base file := by
  constructor
  · rintro (new | removes)
    · exact .inl new
    · rw [removes_iff] at removes
      right
      rw [removes_iff]
      apply removes.imp_right
      rintro ⟨key, known⟩
      simp only [forgetMove, HashMap.get?_remove] at known
      by_cases same : key = target
      · rw [if_pos same] at known
        cases known
      · rw [if_neg same] at known
        exact ⟨key, known⟩
  · rintro (new | removes)
    · exact .inl new
    · rcases removes_iff.mp removes with deleted | ⟨key, known⟩
      · exact .inr (.inl deleted)
      by_cases same : key = target
      · rcases may file (same ▸ known) with same | held | lossless
        · exact absurd same other
        · exact absurd held absent
        · exact lossless
      · refine .inr (removes_iff.mpr (.inr ⟨key, ?_⟩))
        simp only [forgetMove, HashMap.get?_remove]
        rw [if_neg same]
        exact known

theorem lossless_congr (removes : acc'.Removes file ↔ acc.Removes file) :
    acc'.Lossless base file ↔ acc.Lossless base file := or_congr_right removes

theorem mergeAdded_effect (may : acc.MayForget base p) :
    Effect base (· = p) (fun _ => False) acc (acc.mergeAdded p) := by
  have holds : ∀ file, (acc.mergeAdded p).Holds file ↔ file = p ∨ acc.Holds file := by
    intro file
    rw [holds_iff, holds_iff]
    simp only [mergeAdded, HashSet.mem_insert, HashSet.mem_remove, HashMap.get?_remove]
    by_cases same : file = p <;> simp [same]
  refine ⟨fun file => (holds file).trans (by simp), fun file absent => ?_⟩
  obtain ⟨other, absent⟩ := not_or.mp ((holds file).not.mp absent)
  have forgotten : (acc.mergeAdded p).Lossless base file ↔ (acc.forgetMove p).Lossless base file := by
    apply lossless_congr
    rw [removes_iff, removes_iff]
    simp [mergeAdded, forgetMove, other]
  have absent' : ¬ (acc.forgetMove p).Holds file := by
    rw [holds_iff] at absent ⊢
    simpa [forgetMove, HashMap.get?_remove, other] using absent
  rw [forgotten, may.lossless other absent', false_or]

theorem mergeModified_effect (may : p ∈ acc.added ∨ acc.MayForget base p) :
    Effect base (· = p) (fun _ => False) acc (acc.mergeModified p) := by
  unfold mergeModified
  by_cases added : p ∈ acc.added
  · rw [if_pos added]
    constructor
    · intro file
      by_cases same : file = p
      · simp [same, holds_iff, added]
      · simp [same]
    · simp
  rw [if_neg added]
  have may := may.resolve_left added
  set acc' : RepositoryUpdate :=
    { acc with deleted := acc.deleted.remove p, moved := acc.moved.remove p, modified := acc.modified.insert p } with isNew
  have holds : ∀ file, acc'.Holds file ↔ file = p ∨ acc.Holds file := by
    intro file
    rw [holds_iff, holds_iff, isNew]
    simp only [HashSet.mem_insert, HashMap.get?_remove]
    by_cases same : file = p <;> simp [same]
  refine ⟨fun file => (holds file).trans (by simp), fun file absent => ?_⟩
  obtain ⟨other, absent⟩ := not_or.mp ((holds file).not.mp absent)
  have forgotten : acc'.Lossless base file ↔ (acc.forgetMove p).Lossless base file := by
    apply lossless_congr
    rw [removes_iff, removes_iff]
    simp [isNew, forgetMove, other]
  have absent' : ¬ (acc.forgetMove p).Holds file := by
    rw [holds_iff] at absent ⊢
    simpa [forgetMove, HashMap.get?_remove, other] using absent
  rw [forgotten, may.lossless other absent', false_or]

/-- The file may be recorded as deleted: where only its addition or a move to it is taken back, nothing else holds it, and
it was not there at first. -/
def MayDelete (base : FileSystem Content) (self : RepositoryUpdate) (p : TargetFile) : Prop :=
  if p ∈ self.added then p ∉ self.modified ∧ (self.moved.get? p).isNone ∧ self.Lossless base p
  else (self.moved.get? p).isSome → self.Lossless base p

instance (self : RepositoryUpdate) (p : TargetFile) : Decidable (self.MayDelete base p) := by
  unfold MayDelete
  infer_instance

theorem effect_of_leaves (holds : ∀ file, acc'.Holds file ↔ acc.Holds file ∧ file ≠ p) (lossless : acc'.Lossless base p)
    (others : ∀ file, file ≠ p → (acc'.Removes file ↔ acc.Removes file)) :
    Effect base (fun _ => False) (· = p) acc acc' := by
  refine ⟨fun file => (holds file).trans (by simp), fun file _ => ?_⟩
  by_cases same : file = p
  · rw [same]
    simp [lossless]
  · rw [lossless_congr (others file same)]
    simp [same]

theorem mergeDeleted_effect (may : acc.MayDelete base p) :
    Effect base (fun _ => False) (· = p) acc (acc.mergeDeleted p) := by
  unfold MayDelete at may
  unfold mergeDeleted
  by_cases added : p ∈ acc.added
  · rw [if_pos added] at may ⊢
    obtain ⟨unmodified, unmoved, lossless⟩ := may
    apply effect_of_leaves
    · intro file
      rw [holds_iff, holds_iff]
      simp only [HashSet.mem_remove]
      by_cases same : file = p
      · simpa [same, unmodified] using unmoved
      · simp [same]
    · exact lossless
    · exact fun _ _ => .rfl
  rw [if_neg added] at may ⊢
  dsimp only
  cases known : acc.moved.get? p with
  | some source =>
    have lossless := may (known ▸ rfl)
    have removes : ∀ file, Removes { acc with
        modified := acc.modified.remove p, moved := acc.moved.remove p, deleted := acc.deleted.insert source } file ↔
        acc.Removes file := by
      intro file
      rw [removes_iff, removes_iff]
      simp only [HashSet.mem_insert, HashMap.get?_remove]
      constructor
      · rintro ((rfl | deleted) | ⟨key, found⟩)
        · exact .inr ⟨p, known⟩
        · exact .inl deleted
        · by_cases same : key = p
          · rw [if_pos same] at found
            cases found
          · rw [if_neg same] at found
            exact .inr ⟨key, found⟩
      · rintro (deleted | ⟨key, found⟩)
        · exact .inl (.inr deleted)
        · by_cases same : key = p
          · rw [same, known] at found
            exact .inl (.inl (Option.some.inj found).symm)
          · exact .inr ⟨key, by rw [if_neg same, found]⟩
    apply effect_of_leaves
    · intro file
      rw [holds_iff, holds_iff]
      simp only [HashSet.mem_remove, HashMap.get?_remove]
      by_cases same : file = p
      · simp [same, added]
      · simp [same]
    · exact (lossless_congr (removes p)).mpr lossless
    · exact fun file _ => removes file
  | none =>
    dsimp only
    have holds : ∀ file, (file ∈ acc.added ∨ file ∈ acc.modified.remove p ∨ (acc.moved.get? file).isSome) ↔
        acc.Holds file ∧ file ≠ p := by
      intro file
      rw [holds_iff, HashSet.mem_remove]
      by_cases same : file = p
      · simp [same, added, known]
      · simp [same]
    by_cases source : acc.moved.entries.any fun entry => entry.2 = p
    · rw [if_pos source]
      apply effect_of_leaves
      · intro file
        rw [holds_iff]
        exact holds file
      · obtain ⟨entry, member, same⟩ := List.any_eq_true.mp source
        exact .inr (.inr (List.mem_map.mpr ⟨entry, member, of_decide_eq_true same⟩))
      · exact fun _ _ => .rfl
    · rw [if_neg source]
      apply effect_of_leaves
      · intro file
        rw [holds_iff]
        exact holds file
      · exact .inr (.inl (HashSet.mem_insert.mpr (.inl rfl)))
      · intro file other
        rw [removes_iff, removes_iff]
        simp [other]

/-- The source may be recorded as moved away: nothing but the record that is changed holds it, and it was not there at
first. A merge that is left then has to be at its end. -/
def MayMove (base : FileSystem Content) (self : RepositoryUpdate) (last : Bool) (source target : TargetFile) : Prop :=
  if source ∈ self.added then
    last ∧ source ∉ self.modified ∧ (self.moved.get? source).isNone ∧ self.Lossless base source
  else if source ∈ self.modified then last ∧ (self.moved.get? source).isNone ∧ self.Lossless base source
  else ((self.moved.get? source).isSome → self.Lossless base source) ∧ (self.forgetMove source).MayForget base target

instance (self : RepositoryUpdate) (last : Bool) (source target : TargetFile) :
    Decidable (self.MayMove base last source target) := by
  unfold MayMove
  infer_instance

def merged : Except RepositoryUpdate RepositoryUpdate → RepositoryUpdate
  | .ok acc => acc
  | .error acc => acc

theorem effect_of_appears (holds : ∀ file, acc'.Holds file ↔ file = p ∨ acc.Holds file)
    (removes : ∀ file, acc'.Removes file ↔ acc.Removes file) :
    Effect base (· = p) (fun _ => False) acc acc' := by
  refine ⟨fun file => (holds file).trans (by simp), fun file _ => ?_⟩
  rw [lossless_congr (removes file), false_or]

theorem effect_of_move {source target : TargetFile} {t : RepositoryUpdate}
    (leaves : Effect base (fun _ => False) (· = source) acc t) (appears : Effect base (· = target) (fun _ => False) t acc') :
    Effect base (· = target) (· = source) acc acc' :=
  (leaves.trans appears).congr (by simp) (by simp)

theorem mergeMove_effect {last : Bool} {source target : TargetFile} (may : acc.MayMove base last source target) :
    Effect base (· = target) (· = source) acc (merged (acc.mergeMove (target, source))) := by
  unfold MayMove at may
  unfold mergeMove
  dsimp only
  by_cases added : source ∈ acc.added
  · rw [if_pos added] at may ⊢
    obtain ⟨-, unmodified, unmoved, lossless⟩ := may
    have leaves : Effect base (fun _ => False) (· = source) acc { acc with added := acc.added.remove source } := by
      apply effect_of_leaves
      · intro file
        rw [holds_iff, holds_iff]
        simp only [HashSet.mem_remove]
        by_cases same : file = source
        · simpa [same, unmodified] using unmoved
        · simp [same]
      · exact lossless
      · exact fun _ _ => .rfl
    apply effect_of_move leaves
    apply effect_of_appears
    · intro file
      rw [holds_iff, holds_iff]
      simp [merged, or_assoc]
    · exact fun _ => .rfl
  rw [if_neg added] at may ⊢
  by_cases modified : source ∈ acc.modified
  · rw [if_pos modified] at may ⊢
    obtain ⟨-, unmoved, lossless⟩ := may
    have leaves : Effect base (fun _ => False) (· = source) acc { acc with modified := acc.modified.remove source } := by
      apply effect_of_leaves
      · intro file
        rw [holds_iff, holds_iff]
        simp only [HashSet.mem_remove]
        by_cases same : file = source
        · simpa [same, added] using unmoved
        · simp [same]
      · exact lossless
      · exact fun _ _ => .rfl
    apply effect_of_move leaves
    apply effect_of_appears
    · intro file
      rw [holds_iff, holds_iff]
      simp only [merged, HashSet.mem_insert]
      tauto
    · exact fun _ => .rfl
  rw [if_neg modified] at may ⊢
  obtain ⟨lossless, may⟩ := may
  dsimp only [merged]
  set original := (acc.moved.get? source).getD source with isOriginal
  set left := acc.forgetMove source with isLeft
  have holdsLeft : ∀ file, left.Holds file ↔ acc.Holds file ∧ file ≠ source := by
    intro file
    rw [holds_iff, holds_iff, isLeft]
    simp only [forgetMove, HashMap.get?_remove]
    by_cases same : file = source <;> simp [same, added, modified]
  have removesLeft : ∀ file, acc.Removes file ↔ left.Removes file ∨ acc.moved.get? source = some file := by
    intro file
    rw [removes_iff, removes_iff, isLeft]
    simp only [forgetMove, HashMap.get?_remove]
    constructor
    · rintro (deleted | ⟨key, known⟩)
      · exact .inl (.inl deleted)
      · by_cases same : key = source
        · exact .inr (same ▸ known)
        · exact .inl (.inr ⟨key, by rw [if_neg same, known]⟩)
    · rintro ((deleted | ⟨key, known⟩) | known)
      · exact .inl deleted
      · by_cases same : key = source
        · rw [if_pos same] at known
          cases known
        · rw [if_neg same] at known
          exact .inr ⟨key, known⟩
      · exact .inr ⟨source, known⟩
  set acc' : RepositoryUpdate := { acc with moved := (acc.moved.remove source).insert target original } with isNew
  have holds : ∀ file, acc'.Holds file ↔ file = target ∨ left.Holds file := by
    intro file
    rw [holds_iff, holds_iff, isNew, isLeft]
    simp only [forgetMove, HashMap.get?_insert]
    by_cases same : file = target <;> simp [same]
  have removes : ∀ file, acc'.Removes file ↔ (left.forgetMove target).Removes file ∨ file = original := by
    intro file
    rw [removes_iff, removes_iff, isNew, isLeft]
    simp only [forgetMove, HashMap.get?_insert, HashMap.get?_remove]
    constructor
    · rintro (deleted | ⟨key, known⟩)
      · exact .inl (.inl deleted)
      · by_cases same : key = target
        · rw [if_pos same] at known
          exact .inr (Option.some.inj known).symm
        · exact .inl (.inr ⟨key, by rwa [if_neg same] at known ⊢⟩)
    · rintro ((deleted | ⟨key, known⟩) | same)
      · exact .inl deleted
      · by_cases same : key = target
        · rw [if_pos same] at known
          cases known
        · exact .inr ⟨key, by rwa [if_neg same] at known ⊢⟩
      · exact .inr ⟨target, by rw [if_pos rfl, same]⟩
  constructor
  · intro file
    rw [holds, holdsLeft]
  · intro file absent
    obtain ⟨other, absent⟩ := not_or.mp ((holds file).not.mp absent)
    have absent' : ¬ (left.forgetMove target).Holds file := by
      rw [holds_iff] at absent ⊢
      simpa [forgetMove, HashMap.get?_remove, other] using absent
    have forgotten := may.lossless other absent'
    have split : acc'.Lossless base file ↔ left.Lossless base file ∨ file = original := by
      rw [← forgotten, Lossless, Lossless, removes, or_assoc]
    rw [split]
    cases known : acc.moved.get? source with
    | none =>
      have same : acc.Lossless base file ↔ left.Lossless base file := by
        rw [Lossless, Lossless, removesLeft, known]
        simp
      rw [same, isOriginal, known, Option.getD_none, or_comm]
    | some previous =>
      have same : acc.Lossless base file ↔ left.Lossless base file ∨ file = previous := by
        rw [Lossless, Lossless, removesLeft, known, Option.some_inj, or_assoc, @eq_comm _ previous file]
      rw [isOriginal, known, Option.getD_some, ← same]
      refine ⟨.inr, fun either => either.elim (fun here => ?_) id⟩
      rw [here]
      exact lossless (known ▸ rfl)

theorem merge_left {last : Bool} {source target : TargetFile} (may : acc.MayMove base last source target)
    (left : acc.mergeMove (target, source) = .error acc') : last = true := by
  unfold MayMove at may
  unfold mergeMove at left
  dsimp only at left
  by_cases added : source ∈ acc.added
  · rw [if_pos added] at may
    exact may.1
  · rw [if_neg added] at may left
    by_cases modified : source ∈ acc.modified
    · rw [if_pos modified] at may
      exact may.1
    · rw [if_neg modified] at left
      cases left

/-- The moves of an update lose nothing, in the order in which they are taken. -/
def MovesKept (base : FileSystem Content) (last : Bool) : List (TargetFile × TargetFile) → RepositoryUpdate → Prop
  | [], _ => True
  | (target, source) :: moves, acc =>
    acc.MayMove base (last && moves.isEmpty) source target ∧ target ∉ moves.map Prod.snd ∧
      match acc.mergeMove (target, source) with
      | .ok acc => MovesKept base last moves acc
      | .error _ => True

instance decidableMovesKept (last : Bool) (moves : List (TargetFile × TargetFile)) (acc : RepositoryUpdate) :
    Decidable (MovesKept base last moves acc) := by
  induction moves generalizing acc with
  | nil => exact .isTrue trivial
  | cons move moves ih =>
    unfold MovesKept
    cases acc.mergeMove move with
    | ok next =>
      have := ih next
      infer_instance
    | error next => infer_instance

theorem mergeMoves_effect {last : Bool} {moves : List (TargetFile × TargetFile)} (kept : MovesKept base last moves acc) :
    Effect base (· ∈ moves.map Prod.fst) (· ∈ moves.map Prod.snd) acc (merged (mergeMoves moves acc)) ∧
      (∀ left, mergeMoves moves acc = .error left → last = true) := by
  induction moves generalizing acc with
  | nil => exact ⟨(Effect.refl base acc).congr (by simp) (by simp), fun left same => by cases same⟩
  | cons move moves ih =>
    obtain ⟨target, source⟩ := move
    obtain ⟨may, apart, rest⟩ := kept
    have first := mergeMove_effect may
    have goes : mergeMoves ((target, source) :: moves) acc = acc.mergeMove (target, source) >>= mergeMoves moves := rfl
    rw [goes]
    cases result : acc.mergeMove (target, source) with
    | ok next =>
      rw [result] at rest first
      obtain ⟨effect, left⟩ := ih rest
      refine ⟨(first.trans effect).congr (fun file => ?_) fun file => ?_, left⟩
      · rw [List.map_cons, List.mem_cons]
        constructor
        · rintro (later | ⟨here, -⟩)
          · exact .inr later
          · exact .inl here
        · rintro (here | later)
          · exact .inr ⟨here, here ▸ apart⟩
          · exact .inl later
      · rw [List.map_cons, List.mem_cons]
    | error next =>
      have ends := merge_left may result
      rw [Bool.and_eq_true, List.isEmpty_iff] at ends
      rw [result] at first
      refine ⟨first.congr ?_ ?_, fun _ _ => ends.1⟩
      · simp [ends.2]
      · simp [ends.2]

theorem foldl_effect {f : RepositoryUpdate → TargetFile → RepositoryUpdate}
    {allowed : RepositoryUpdate → TargetFile → Prop} {appears leaves : TargetFile → TargetFile → Prop}
    (one : ∀ acc p, allowed acc p → Effect base (appears p) (leaves p) acc (f acc p))
    (apart : ∀ p q file, appears p file → ¬ leaves q file) {files : List TargetFile} (every : Trace.Every f allowed acc files) :
    Effect base (fun file => ∃ p ∈ files, appears p file) (fun file => ∃ p ∈ files, leaves p file) acc (files.foldl f acc) := by
  induction files generalizing acc with
  | nil => exact (Effect.refl base acc).congr (by simp) (by simp)
  | cons p files ih =>
    apply ((one _ _ every.1).trans (ih every.2)).congr
    · intro file
      rw [List.exists_mem_cons_iff]
      constructor
      · rintro (later | ⟨here, -⟩)
        · exact .inr later
        · exact .inl here
      · rintro (here | later)
        · exact .inr ⟨here, fun ⟨q, _, leaves⟩ => apart p q file here leaves⟩
        · exact .inl later
    · intro file
      rw [List.exists_mem_cons_iff]

def nothingElse (acc incoming : RepositoryUpdate) : Bool :=
  incoming.added.isEmpty && incoming.modified.isEmpty && incoming.deleted.isEmpty &&
    (!incoming.commitUpdated || acc.commitUpdated) && (!incoming.indexLockDetected || acc.indexLockDetected) &&
    (!incoming.remoteRefUpdated || acc.remoteRefUpdated)

/-- What follows the moves loses nothing. -/
def RestKept (base : FileSystem Content) (acc incoming : RepositoryUpdate) : Prop :=
  let added := incoming.added.elems.foldl mergeAdded acc
  let modified := incoming.modified.elems.foldl mergeModified added
  Trace.Every mergeAdded (MayForget base) acc incoming.added.elems ∧
    Trace.Every mergeModified (fun acc p => p ∈ acc.added ∨ acc.MayForget base p) added incoming.modified.elems ∧
    Trace.Every mergeDeleted (MayDelete base) modified incoming.deleted.elems

/-- The merge takes none of the branches that lose something. -/
def Kept (base : FileSystem Content) (acc incoming : RepositoryUpdate) : Prop :=
  MovesKept base (acc.nothingElse incoming) incoming.moved.entries acc ∧
    match mergeMoves incoming.moved.entries acc with
    | .ok acc => acc.RestKept base incoming
    | .error _ => True

instance (acc incoming : RepositoryUpdate) : Decidable (acc.Kept base incoming) := by
  unfold Kept RestKept
  cases mergeMoves incoming.moved.entries acc <;> infer_instance

theorem mergeRest_effect (kept : acc.RestKept base incoming) :
    Effect base (fun file => (file ∈ incoming.added ∨ file ∈ incoming.modified) ∧ file ∉ incoming.deleted)
      (· ∈ incoming.deleted) acc (acc.mergeRest incoming) := by
  obtain ⟨added, modified, deleted⟩ := kept
  have first := foldl_effect (fun acc p (may : acc.MayForget base p) => mergeAdded_effect may) (fun _ _ _ _ => id) added
  have second := foldl_effect (fun acc p (may : p ∈ acc.added ∨ acc.MayForget base p) => mergeModified_effect may)
    (fun _ _ _ _ => id) modified
  have third := foldl_effect (fun acc p (may : acc.MayDelete base p) => mergeDeleted_effect may)
    (fun _ _ _ appears _ => appears) deleted
  have all := (first.trans second).trans third
  refine ⟨fun file => (all.holds file).trans ?_, fun file absent => (all.lossless file absent).trans ?_⟩
  · simp
    tauto
  · simp

theorem merge_effect (kept : acc.Kept base incoming) :
    Effect base (fun file => incoming.Holds file ∧ file ∉ incoming.deleted) incoming.Removes acc
      (acc.mergeRepositoryUpdates incoming) := by
  obtain ⟨moves, rest⟩ := kept
  obtain ⟨effect, left⟩ := mergeMoves_effect moves
  unfold mergeRepositoryUpdates
  cases result : mergeMoves incoming.moved.entries acc with
  | ok next =>
    rw [result] at rest effect
    apply (effect.trans (mergeRest_effect rest)).congr
    · intro file
      unfold Holds HashMap.keys
      tauto
    · intro file
      unfold Removes
      tauto
  | error next =>
    have nothing := left next result
    rw [result] at effect
    simp only [nothingElse, Bool.and_eq_true, HashSet.isEmpty_iff] at nothing
    obtain ⟨⟨⟨⟨⟨added, modified⟩, deleted⟩, -⟩, -⟩, -⟩ := nothing
    apply effect.congr
    · intro file
      simp [Holds, HashMap.keys, added, modified, deleted]
    · intro file
      simp [Removes, deleted]

end Warp.RepoMetadata.RepositoryUpdate
