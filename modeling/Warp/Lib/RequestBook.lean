import Mathlib.Tactic

namespace Warp

open List

universe u v

structure RequestBook (κ : Type u) (τ : Type v) where
  asked : List (κ × τ)
  withdrawn : List τ
  answered : List τ
  waiting : κ → List τ

namespace RequestBook

variable {κ : Type u} {τ : Type v} {book : RequestBook κ τ} {key other : κ} {t : τ}

/-- A request is asked once and answered at most once, and one that is neither answered nor given up waits under its
key. -/
structure Balanced (book : RequestBook κ τ) : Prop where
  distinct : (book.asked.map Prod.snd).Nodup
  once : book.answered.Nodup
  answeredAsked : ∀ t ∈ book.answered, t ∈ book.asked.map Prod.snd
  waitingAsked : ∀ key, ∀ t ∈ book.waiting key, (key, t) ∈ book.asked
  unanswered : ∀ key, ∀ t ∈ book.waiting key, t ∉ book.answered
  queued : ∀ key, (book.waiting key).Nodup
  accounted : ∀ key t, (key, t) ∈ book.asked → t ∈ book.withdrawn ∨ t ∈ book.answered ∨ t ∈ book.waiting key

def empty : RequestBook κ τ := ⟨[], [], [], fun _ => []⟩

theorem empty_balanced : (empty : RequestBook κ τ).Balanced where
  distinct := nodup_nil
  once := nodup_nil
  answeredAsked := by simp [empty]
  waitingAsked := by simp [empty]
  unanswered := by simp [empty]
  queued _ := nodup_nil
  accounted := by simp [empty]

theorem Balanced.key_unique (balanced : book.Balanced) (asked : (key, t) ∈ book.asked) (again : (other, t) ∈ book.asked) :
    other = key := by
  have same := inj_on_of_nodup_map balanced.distinct again asked rfl
  exact congrArg Prod.fst same

theorem distinct_snoc (distinct : (book.asked.map Prod.snd).Nodup) (fresh : t ∉ book.asked.map Prod.snd) :
    ((book.asked ++ [(key, t)]).map Prod.snd).Nodup := by
  rw [map_append, nodup_append]
  refine ⟨distinct, nodup_singleton _, fun old member new isNew => ?_⟩
  rw [map_singleton, mem_singleton] at isNew
  subst isNew
  exact fun same => fresh (same ▸ member)

variable {waiting : κ → List τ}

theorem Balanced.ask (balanced : book.Balanced) (fresh : t ∉ book.asked.map Prod.snd)
    (here : waiting key = book.waiting key ++ [t]) (others : ∀ other ≠ key, waiting other = book.waiting other) :
    Balanced { book with asked := book.asked ++ [(key, t)], waiting := waiting } := by
  have mem : ∀ {other u}, u ∈ waiting other → u ∈ book.waiting other ∨ (other = key ∧ u = t) := by
    intro other u member
    by_cases same : other = key
    · subst same
      rw [here, mem_append, mem_singleton] at member
      exact member.imp_right (⟨rfl, ·⟩)
    · rw [others other same] at member
      exact .inl member
  have notWaiting : ∀ other, t ∉ book.waiting other := fun other member =>
    fresh (List.mem_map.mpr ⟨_, balanced.waitingAsked other t member, rfl⟩)
  refine ⟨distinct_snoc balanced.distinct fresh, balanced.once, ?_, ?_, ?_, ?_, ?_⟩
  · intro u answered
    rw [map_append]
    exact mem_append_left _ (balanced.answeredAsked u answered)
  · intro other u member
    rcases mem member with old | ⟨rfl, rfl⟩
    · exact mem_append_left _ (balanced.waitingAsked other u old)
    · exact mem_append_right _ (mem_singleton_self _)
  · intro other u member
    rcases mem member with old | ⟨rfl, rfl⟩
    · exact balanced.unanswered other u old
    · exact fun answered => fresh (balanced.answeredAsked u answered)
  · intro other
    by_cases same : other = key
    · subst same
      show (waiting other).Nodup
      rw [here, nodup_append]
      refine ⟨balanced.queued other, nodup_singleton _, fun u member v isNew same => ?_⟩
      rw [mem_singleton] at isNew
      exact notWaiting other (isNew ▸ same ▸ member)
    · show (waiting other).Nodup
      rw [others other same]
      exact balanced.queued other
  · intro other u asked
    rcases List.mem_append.mp asked with old | new
    · rcases balanced.accounted other u old with withdrawn | answered | waits
      · exact .inl withdrawn
      · exact .inr (.inl answered)
      · refine .inr (.inr ?_)
        show u ∈ waiting other
        by_cases same : other = key
        · subst same
          rw [here]
          exact mem_append_left _ waits
        · rwa [others other same]
    · cases List.mem_singleton.mp new
      refine .inr (.inr ?_)
      show t ∈ waiting key
      rw [here]
      exact mem_append_right _ (mem_singleton_self _)

theorem Balanced.reply (balanced : book.Balanced) (fresh : t ∉ book.asked.map Prod.snd) :
    Balanced { book with asked := book.asked ++ [(key, t)], answered := book.answered ++ [t] } := by
  have notWaiting : ∀ other, t ∉ book.waiting other := fun other member =>
    fresh (List.mem_map.mpr ⟨_, balanced.waitingAsked other t member, rfl⟩)
  refine ⟨distinct_snoc balanced.distinct fresh, ?_, ?_, ?_, ?_, balanced.queued, ?_⟩
  · rw [nodup_append]
    refine ⟨balanced.once, nodup_singleton _, fun u answered v isNew same => ?_⟩
    rw [mem_singleton] at isNew
    exact fresh (balanced.answeredAsked t (isNew ▸ same ▸ answered))
  · intro u answered
    rw [map_append, mem_append, map_singleton]
    exact (List.mem_append.mp answered).imp_left (balanced.answeredAsked u)
  · exact fun other u member => mem_append_left _ (balanced.waitingAsked other u member)
  · intro other u member answered
    rcases List.mem_append.mp answered with old | new
    · exact balanced.unanswered other u member old
    · exact notWaiting other (List.mem_singleton.mp new ▸ member)
  · intro other u asked
    rcases List.mem_append.mp asked with old | new
    · exact (balanced.accounted other u old).imp_right (.imp_left (mem_append_left _))
    · cases List.mem_singleton.mp new
      exact .inr (.inl (mem_append_right _ (mem_singleton_self _)))

theorem Balanced.drain (balanced : book.Balanced) (here : waiting key = [])
    (others : ∀ other ≠ key, waiting other = book.waiting other) :
    Balanced { book with answered := book.answered ++ book.waiting key, waiting := waiting } := by
  have mem : ∀ {other u}, u ∈ waiting other → u ∈ book.waiting other ∧ other ≠ key := by
    intro other u member
    by_cases same : other = key
    · rw [same, here] at member
      cases member
    · rw [others other same] at member
      exact ⟨member, same⟩
  refine ⟨balanced.distinct, ?_, ?_, ?_, ?_, ?_, ?_⟩
  · rw [nodup_append]
    exact ⟨balanced.once, balanced.queued key, fun u answered v waits same =>
      balanced.unanswered key v waits (same ▸ answered)⟩
  · intro u answered
    rcases List.mem_append.mp answered with old | new
    · exact balanced.answeredAsked u old
    · exact List.mem_map.mpr ⟨_, balanced.waitingAsked key u new, rfl⟩
  · exact fun other u member => balanced.waitingAsked other u (mem member).1
  · intro other u member answered
    obtain ⟨waits, apart⟩ := mem member
    rcases List.mem_append.mp answered with old | new
    · exact balanced.unanswered other u waits old
    · exact apart (balanced.key_unique (balanced.waitingAsked key u new) (balanced.waitingAsked other u waits))
  · intro other
    by_cases same : other = key
    · subst same
      show (waiting other).Nodup
      rw [here]
      exact nodup_nil
    · show (waiting other).Nodup
      rw [others other same]
      exact balanced.queued other
  · intro other u asked
    rcases balanced.accounted other u asked with withdrawn | answered | waits
    · exact .inl withdrawn
    · exact .inr (.inl (mem_append_left _ answered))
    · by_cases same : other = key
      · subst same
        exact .inr (.inl (mem_append_right _ waits))
      · refine .inr (.inr ?_)
        show u ∈ waiting other
        rwa [others other same]

theorem Balanced.withdraw (balanced : book.Balanced) {withdrawn : List τ} (grows : ∀ t ∈ book.withdrawn, t ∈ withdrawn)
    (narrows : ∀ other, (waiting other).Sublist (book.waiting other))
    (kept : ∀ other, ∀ t ∈ book.waiting other, t ∉ withdrawn → t ∈ waiting other) :
    Balanced { book with withdrawn := withdrawn, waiting := waiting } where
  distinct := balanced.distinct
  once := balanced.once
  answeredAsked := balanced.answeredAsked
  waitingAsked other u member := balanced.waitingAsked other u ((narrows other).subset member)
  unanswered other u member := balanced.unanswered other u ((narrows other).subset member)
  queued other := (balanced.queued other).sublist (narrows other)
  accounted other u asked := by
    rcases balanced.accounted other u asked with given | answered | waits
    · exact .inl (grows u given)
    · exact .inr (.inl answered)
    · by_cases given : u ∈ withdrawn
      · exact .inl given
      · exact .inr (.inr (kept other u waits given))

end RequestBook

end Warp
