import Warp.Tmux.Decode

namespace Warp.Tmux

open List

open Ansi (Bytes ascii)
open Transducer

namespace ParserState

variable {debug : Bool} {state next : ParserState} {byte : UInt8} {bytes : Bytes} {calls : List Call}

def Fits : ParserState → UInt8 → Prop
  | .tagOutput (some number), byte => isAsciiDigit byte → number * 10 + (byte - 48).toNat < 2 ^ 32
  | .tagWindowClose (some number), byte => isAsciiDigit byte → number * 10 + (byte - 48).toNat < 2 ^ 32
  | _, _ => True

theorem pushDigit_isSome_iff {number : ℕ} : (pushDigit number byte).isSome ↔ number * 10 + (byte - 48).toNat < 2 ^ 32 := by
  rw [pushDigit_eq]
  split_ifs with fits
  · exact iff_of_true rfl fits
  · exact iff_of_false Bool.false_ne_true fits

theorem isSome_digits {number : ℕ} {f : ℕ → ParserState} {other : Outcome} (total : other.isSome) :
    (if isAsciiDigit byte then (pushDigit number byte).bind fun number => some (f number, ([] : List Call)) else other).isSome ↔
      (isAsciiDigit byte → number * 10 + (byte - 48).toNat < 2 ^ 32) := by
  by_cases isDigit : isAsciiDigit byte
  · rw [if_pos isDigit, ← pushDigit_isSome_iff]
    cases pushDigit number byte with
    | none => exact iff_of_false Bool.false_ne_true fun fits => Bool.false_ne_true (fits isDigit)
    | some _ => exact iff_of_true rfl fun _ => rfl
  · rw [if_neg isDigit]
    exact iff_of_true total fun digit => absurd digit isDigit

theorem advanceUntagged_isSome_iff : (advanceUntagged debug state byte).isSome ↔ state.Fits byte := by
  cases state with
  | tagOutput maybePane =>
    cases maybePane with
    | some pane =>
      refine isSome_digits ?_
      unfold reportParseError
      split_ifs <;> rfl
    | none =>
      refine iff_of_true ?_ trivial
      show (ite _ _ _ : Outcome).isSome
      unfold reportParseError
      split_ifs <;> rfl
  | tagWindowClose maybeWindow =>
    cases maybeWindow with
    | some window =>
      refine isSome_digits ?_
      unfold reportParseError
      split_ifs <;> rfl
    | none =>
      refine iff_of_true ?_ trivial
      show (ite _ _ _ : Outcome).isSome
      unfold reportParseError
      split_ifs <;> rfl
  | readingPaneOutput pane maybeEscapeSequence =>
    refine iff_of_true ?_ trivial
    show (advanceReadingPaneOutput pane maybeEscapeSequence byte).isSome
    unfold advanceReadingPaneOutput reportParseError
    cases maybeEscapeSequence with
    | some escapeSequence =>
      dsimp only
      split_ifs <;> rfl
    | none =>
      dsimp only
      split_ifs <;> rfl
  | readingCommandOutput currentLine lines =>
    refine iff_of_true ?_ trivial
    show (advanceReadingCommandOutput currentLine lines byte).isSome
    unfold advanceReadingCommandOutput
    split_ifs <;> rfl
  | beginningOfLine | tagExit | tagUnknown =>
    refine iff_of_true ?_ trivial
    show (ite _ _ _ : Outcome).isSome
    split_ifs <;> rfl
  | readingTag | tagBegin | error => exact iff_of_true rfl trivial

theorem fits_of_not_digit (other : isAsciiDigit byte = false) : state.Fits byte := by
  have never : ∀ {P : Prop}, isAsciiDigit byte → P := fun isDigit => absurd (other.symm.trans isDigit) Bool.false_ne_true
  cases state with
  | tagOutput maybePane => cases maybePane <;> first | trivial | exact never
  | tagWindowClose maybeWindow => cases maybeWindow <;> first | trivial | exact never
  | beginningOfLine | readingTag | tagExit | tagUnknown | tagBegin | readingCommandOutput | readingPaneOutput | error => trivial

theorem advance_isSome_iff : (advance debug state byte).isSome ↔ state.Fits byte := by
  by_cases hidden : byte = carriageReturn
  · rw [hidden, advance_carriageReturn]
    exact iff_of_true rfl (fits_of_not_digit rfl)
  · have same : state.Untagged → ((advance debug state byte).isSome ↔ state.Fits byte) := by
      intro untagged
      rw [advance_untagged untagged hidden]
      exact advanceUntagged_isSome_iff
    cases state with
    | readingTag tag =>
      unfold advance
      rw [if_neg hidden]
      dsimp only
      by_cases ends : byte = space ∨ byte = lineFeed
      · have other : isAsciiDigit byte = false := by
          rcases ends with rfl | rfl <;> rfl
        rw [if_pos ends, advanceUntagged_isSome_iff]
        exact iff_of_true (fits_of_not_digit other) trivial
      · rw [if_neg ends]
        exact iff_of_true rfl trivial
    | beginningOfLine | tagExit | tagUnknown | tagBegin | readingCommandOutput | tagOutput | readingPaneOutput | tagWindowClose |
        error => exact same trivial

end ParserState

def isEscapeDigit (byte : UInt8) : Bool := 48 ≤ byte ∧ byte ≤ 56

/-- An output whose last escape sequence has less than three digits. -/
def endsInEscape : Bytes → Bool
  | [] => false
  | byte :: rest =>
    if byte = backslash then
      match rest with
      | first :: second :: third :: rest => [first, second, third].all isEscapeDigit && endsInEscape rest
      | rest => rest.all isEscapeDigit
    else if byte < 32 then false else endsInEscape rest

/-- What follows a tag has no number, one that does not fit, or one that is followed as described. -/
def NumberDerails (mark : UInt8) (followed : Bytes → Bool) (args : Bytes) : Prop :=
  match args.dropWhile (· ≠ mark) with
  | [] => True
  | _ :: body => 2 ^ 32 ≤ digitsValue 0 (body.takeWhile isAsciiDigit) ∨ followed (body.dropWhile isAsciiDigit)

def outputDerails : Bytes → Bool
  | [] => true
  | byte :: output => byte = space && endsInEscape output

/-- After this line the parser is not at the beginning of the next one. -/
def Derails : Bytes → Prop
  | [] => True
  | byte :: rest =>
    let tag := rest.takeWhile (· ≠ space)
    let args := rest.dropWhile (· ≠ space)
    byte = percent ∧ (tag = ascii "output" ∧ NumberDerails percent outputDerails args ∨
      (tag = ascii "window-close" ∨ tag = ascii "unlinked-window-close") ∧ NumberDerails at_ (fun _ => false) args)

def OpensBlock (line : Bytes) : Prop := ∃ suffix, (suffix = [] ∨ suffix.head? = some space) ∧
  withoutReturns line = ascii "%begin" ++ suffix

namespace ParserState

variable {debug : Bool} {state state' : ParserState} {byte : UInt8} {bytes more : Bytes} {calls : List Call} {P Q : Prop}

def Stuck (state : ParserState) : Prop := state = .error ∨ state = .tagOutput none ∨ state = .tagWindowClose none

/-- The rest of a line leads to the beginning of the next one unless it derails. -/
def Lands (debug : Bool) (state : ParserState) (bytes : Bytes) (derails : Prop) : Prop :=
  ¬ derails ∧ (∃ calls, parse debug state (bytes ++ [lineFeed]) = some (.beginningOfLine, calls)) ∨
    derails ∧ ∀ state' calls, parse debug state (bytes ++ [lineFeed]) = some (state', calls) → state'.Stuck

theorem Lands.congr (lands : Lands debug state bytes P) (same : P ↔ Q) : Lands debug state bytes Q := by
  rw [← propext same]
  exact lands

theorem Lands.after (reads : parse debug state bytes = some (state', calls)) (lands : Lands debug state' more P) :
    Lands debug state (bytes ++ more) P := by
  have whole : parse debug state (bytes ++ more ++ [lineFeed]) =
      (parse debug state' (more ++ [lineFeed])).map (Transducer.after calls) := by
    rw [append_assoc]
    exact feed_append_of_some reads
  unfold Lands
  rw [whole]
  refine lands.imp (And.imp_right ?_) (And.imp_right ?_)
  · rintro ⟨later, ends⟩
    exact ⟨calls ++ later, by rw [ends]; rfl⟩
  · intro stuck reached all ends
    obtain ⟨⟨last, later⟩, isLast, same⟩ := Option.map_eq_some_iff.mp ends
    have isReached : last = reached := congrArg Prod.fst same
    rw [← isReached]
    exact stuck last later isLast

theorem Lands.cons (moves : advance debug state byte = some (state', calls)) (lands : Lands debug state' more P) :
    Lands debug state (byte :: more) P :=
  Lands.after (feed_singleton moves) lands

theorem lands_of_end (ends : advance debug state lineFeed = some (.beginningOfLine, calls)) : Lands debug state [] False :=
  .inl ⟨id, calls, feed_singleton ends⟩

theorem lands_of_stuck (ends : advance debug state lineFeed = some (state', calls)) (stuck : state'.Stuck) :
    Lands debug state [] True := by
  refine .inr ⟨trivial, fun last later isLast => ?_⟩
  have reached : parse debug state [lineFeed] = some (state', calls) := feed_singleton ends
  have isReached : state' = last := congrArg Prod.fst (Option.some_inj.mp (reached.symm.trans isLast))
  rw [← isReached]
  exact stuck

theorem lands_of_panic (panics : parse debug state bytes = none) : Lands debug state (bytes ++ more) True := by
  refine .inr ⟨trivial, fun last later isLast => ?_⟩
  have none : parse debug state (bytes ++ more ++ [lineFeed]) = none := by
    rw [append_assoc]
    exact feed_append_none panics
  rw [none] at isLast
  cases isLast

theorem lands_error (inside : lineFeed ∉ bytes) : Lands debug .error bytes False := by
  rw [← append_nil bytes]
  exact Lands.after (parse_error inside) (lands_of_end rfl)

theorem advance_escape {pane : ℕ} {escapeSequence : EscapeSequence} (visible : byte ≠ carriageReturn) :
    advance debug (.readingPaneOutput pane (some escapeSequence)) byte =
      advanceReadingPaneOutput pane (some escapeSequence) byte :=
  @advance_untagged debug (.readingPaneOutput pane (some escapeSequence)) byte trivial visible

variable {escapeSequence : EscapeSequence} {pane : ℕ}

theorem lands_escape_other (visible : byte ≠ carriageReturn) (other : isEscapeDigit byte = false)
    (inside : lineFeed ∉ more) :
    Lands debug (.readingPaneOutput pane (some escapeSequence)) (byte :: more) False := by
  have moves := @advance_escape debug _ pane escapeSequence visible
  unfold advanceReadingPaneOutput reportParseError at moves
  dsimp only at moves
  rw [if_neg (of_decide_eq_false other)] at moves
  exact Lands.cons moves (lands_error inside)

theorem lands_escape_digit (visible : byte ≠ carriageReturn) (digit : isEscapeDigit byte = true)
    (more' : ∀ escapeSequence' : EscapeSequence, escapeSequence'.remainingDigits + 1 = escapeSequence.remainingDigits → Lands debug (.readingPaneOutput pane (some escapeSequence')) more P)
    (last : escapeSequence.remainingDigits = 1 → Lands debug (.readingPaneOutput pane none) more P) :
    Lands debug (.readingPaneOutput pane (some escapeSequence)) (byte :: more) P := by
  have moves := @advance_escape debug _ pane escapeSequence visible
  unfold advanceReadingPaneOutput at moves
  dsimp only at moves
  rw [if_pos (of_decide_eq_true digit)] at moves
  have pos := escapeSequence.unfinished
  by_cases remains : 0 < escapeSequence.remainingDigits - 1
  · rw [dif_pos remains] at moves
    exact Lands.cons moves (more' _ (show escapeSequence.remainingDigits - 1 + 1 = _ by omega))
  · rw [dif_neg remains] at moves
    exact Lands.cons moves (last (by omega))

theorem advance_endOfEscape {pane : ℕ} {escapeSequence : EscapeSequence} :
    ∃ calls, advance debug (.readingPaneOutput pane (some escapeSequence)) lineFeed = some (.error, calls) := ⟨_, rfl⟩

theorem lands_escape (inside : lineFeed ∉ bytes) (visible : carriageReturn ∉ bytes)
    (later : escapeSequence.remainingDigits ≤ bytes.length → Lands debug (.readingPaneOutput pane none) (bytes.drop escapeSequence.remainingDigits) (endsInEscape (bytes.drop escapeSequence.remainingDigits))) :
    Lands debug (.readingPaneOutput pane (some escapeSequence)) bytes
      ((bytes.take escapeSequence.remainingDigits).all isEscapeDigit ∧ (escapeSequence.remainingDigits ≤ bytes.length →
        endsInEscape (bytes.drop escapeSequence.remainingDigits))) := by
  induction bytes generalizing escapeSequence with
  | nil =>
    obtain ⟨calls, ends⟩ := @advance_endOfEscape debug pane escapeSequence
    refine (lands_of_stuck ends (.inl rfl)).congr (iff_of_true trivial ⟨by rw [take_nil]; rfl, fun short => ?_⟩)
    exact absurd short (Nat.not_le_of_lt escapeSequence.unfinished)
  | cons byte bytes ih =>
    have insideRest : lineFeed ∉ bytes := fun member => inside (mem_cons_of_mem _ member)
    have visibleRest : carriageReturn ∉ bytes := fun member => visible (mem_cons_of_mem _ member)
    have isVisible : byte ≠ carriageReturn := fun same => visible (same ▸ mem_cons_self)
    obtain ⟨left, isLeft⟩ := Nat.exists_eq_succ_of_ne_zero (Nat.ne_of_gt escapeSequence.unfinished)
    rw [isLeft] at later ⊢
    rw [take_succ_cons, drop_succ_cons, all_cons, Bool.and_eq_true, length_cons, Nat.succ_le_succ_iff]
    cases digit : isEscapeDigit byte with
    | false =>
      exact (lands_escape_other isVisible digit insideRest).congr
        (iff_of_false id fun both => Bool.false_ne_true both.1.1)
    | true =>
      refine lands_escape_digit isVisible digit (fun next isNext => ?_) fun last => ?_
      · have same : next.remainingDigits = left := by omega
        have rest := @ih next insideRest visibleRest fun short =>
          same ▸ later (Nat.succ_le_succ (same ▸ short))
        rw [same] at rest
        exact rest.congr (and_congr_left' ⟨fun all => ⟨rfl, all⟩, And.right⟩)
      · have none : left = 0 := by omega
        rw [none] at later ⊢
        refine (later (Nat.succ_le_succ (Nat.zero_le _))).congr ⟨fun ends => ⟨⟨rfl, rfl⟩, fun _ => ends⟩, fun both => both.2 (Nat.zero_le _)⟩

theorem endsInEscape_backslash : endsInEscape (backslash :: bytes) ↔
    (bytes.take 3).all isEscapeDigit ∧ (3 ≤ bytes.length → endsInEscape (bytes.drop 3)) := by
  match bytes with
  | [] => simp [endsInEscape]
  | [first] => simp [endsInEscape]
  | [first, second] => simp [endsInEscape]
  | first :: second :: third :: rest => simp [endsInEscape, and_assoc]

theorem endsInEscape_plain (plain : byte ≠ backslash) :
    endsInEscape (byte :: bytes) = if byte < 32 then false else endsInEscape bytes := by
  match bytes with
  | [] => simp [endsInEscape, plain]
  | [first] => simp [endsInEscape, plain]
  | [first, second] => simp [endsInEscape, plain]
  | first :: second :: third :: rest =>
    rw [endsInEscape, if_neg plain]

theorem lands_paneOutput (inside : lineFeed ∉ bytes) (visible : carriageReturn ∉ bytes) :
    Lands debug (.readingPaneOutput pane none) bytes (endsInEscape bytes) := by
  induction length : bytes.length using Nat.strongRecOn generalizing bytes with
  | _ length' ih =>
    cases bytes with
    | nil => exact (lands_of_end rfl).congr (iff_of_false id Bool.false_ne_true)
    | cons byte bytes =>
      rw [length_cons] at length
      have insideRest : lineFeed ∉ bytes := fun member => inside (mem_cons_of_mem _ member)
      have visibleRest : carriageReturn ∉ bytes := fun member => visible (mem_cons_of_mem _ member)
      have isVisible : byte ≠ carriageReturn := fun same => visible (same ▸ mem_cons_self)
      have isNoEnd : byte ≠ lineFeed := fun same => inside (same ▸ mem_cons_self)
      by_cases escapes : byte = backslash
      · rw [escapes]
        have opens : advance debug (.readingPaneOutput pane none) backslash =
            some (.readingPaneOutput pane (some ⟨0, 3, by decide⟩), []) := rfl
        refine Lands.cons opens ((lands_escape insideRest visibleRest fun _ => ?_).congr endsInEscape_backslash.symm)
        have shorter : (bytes.drop 3).length < length' := by
          rw [length_drop]
          omega
        exact ih _ shorter (fun member => insideRest (mem_of_mem_drop member))
          (fun member => visibleRest (mem_of_mem_drop member)) rfl
      · have moves := @advance_untagged debug (.readingPaneOutput pane none) byte trivial isVisible
        replace moves : advance debug (.readingPaneOutput pane none) byte = advanceReadingPaneOutput pane none byte := moves
        unfold advanceReadingPaneOutput reportParseError at moves
        dsimp only at moves
        rw [if_neg isNoEnd, if_neg escapes] at moves
        rw [endsInEscape_plain escapes]
        by_cases low : byte < 32
        · rw [if_pos low] at moves ⊢
          exact (Lands.cons moves (lands_error insideRest)).congr (iff_of_false id Bool.false_ne_true)
        · rw [if_neg low] at moves ⊢
          exact Lands.cons moves (ih _ (by omega) insideRest visibleRest rfl)

structure Waits (debug : Bool) (state : Option ℕ → ParserState) (mark : UInt8) : Prop where
  marked : advance debug (state none) mark = some (state (some 0), [])
  skips : ∀ byte, byte ≠ mark → ∃ calls, advance debug (state none) byte = some (state none, calls)
  reads : Reads debug fun number => state (some number)
  stuck : (state none).Stuck

theorem waits_tagOutput : Waits debug .tagOutput percent where
  marked := rfl
  skips byte other := by
    by_cases hidden : byte = carriageReturn
    · exact ⟨[], by rw [hidden]; rfl⟩
    · rw [@advance_untagged debug (.tagOutput none) byte trivial hidden]
      show ∃ calls, advanceTagOutput none byte = _
      unfold advanceTagOutput
      dsimp only
      rw [if_neg other]
      split_ifs
      · exact ⟨_, rfl⟩
      · exact ⟨_, rfl⟩
  reads := reads_tagOutput
  stuck := .inr (.inl rfl)

theorem waits_tagWindowClose : Waits debug .tagWindowClose at_ where
  marked := rfl
  skips byte other := by
    by_cases hidden : byte = carriageReturn
    · exact ⟨[], by rw [hidden]; rfl⟩
    · rw [@advance_untagged debug (.tagWindowClose none) byte trivial hidden]
      show ∃ calls, advanceTagWindowClose none byte = _
      unfold advanceTagWindowClose
      dsimp only
      rw [if_neg other]
      split_ifs
      · exact ⟨_, rfl⟩
      · exact ⟨_, rfl⟩
  reads := reads_tagWindowClose
  stuck := .inr (.inr rfl)

theorem lands_number {number : Option ℕ → ParserState} {mark : UInt8} {followed : Bytes → Bool}
    (waits : Waits debug number mark) (isMark : mark ≠ lineFeed) (inside : lineFeed ∉ bytes) (visible : carriageReturn ∉ bytes)
    (later : ∀ value rest, lineFeed ∉ rest → carriageReturn ∉ rest → (∀ byte ∈ rest.head?, ¬ isAsciiDigit byte) →
      Lands debug (number (some value)) rest (followed rest)) :
    Lands debug (number none) bytes (NumberDerails mark followed bytes) := by
  induction bytes with
  | nil =>
    obtain ⟨calls, ends⟩ := waits.skips lineFeed isMark.symm
    exact (lands_of_stuck ends waits.stuck).congr Iff.rfl
  | cons byte bytes ih =>
    have insideRest : lineFeed ∉ bytes := fun member => inside (mem_cons_of_mem _ member)
    have visibleRest : carriageReturn ∉ bytes := fun member => visible (mem_cons_of_mem _ member)
    by_cases isMarked : byte = mark
    · have isNumber : NumberDerails mark followed (byte :: bytes) ↔
          (2 ^ 32 ≤ digitsValue 0 (bytes.takeWhile isAsciiDigit) ∨ followed (bytes.dropWhile isAsciiDigit)) := by
        unfold NumberDerails
        rw [dropWhile_cons_of_neg (by simp [isMarked])]
      rw [isMarked] at isNumber ⊢
      have digits : ∀ digit ∈ bytes.takeWhile isAsciiDigit, isAsciiDigit digit := List.all_eq_true.mp all_takeWhile
      refine (Lands.cons waits.marked ?_).congr isNumber.symm
      by_cases fits : digitsValue 0 (bytes.takeWhile isAsciiDigit) < 2 ^ 32
      · have reads := parse_number waits.reads digits fits
        have rest := later (digitsValue 0 (bytes.takeWhile isAsciiDigit)) (bytes.dropWhile isAsciiDigit)
          (fun member => insideRest ((dropWhile_sublist _).subset member))
          (fun member => visibleRest ((dropWhile_sublist _).subset member)) ?_
        · have whole := Lands.after reads rest
          rw [takeWhile_append_dropWhile] at whole
          exact whole.congr (or_iff_right (Nat.not_le_of_lt fits)).symm
        · intro byte isHead
          have kept := List.head?_dropWhile_not isAsciiDigit bytes
          rw [Option.mem_def.mp isHead] at kept
          simpa using kept
      · have panics := parse_number_none waits.reads digits fits
        have whole := @lands_of_panic _ _ _ (bytes.dropWhile isAsciiDigit) panics
        rw [takeWhile_append_dropWhile] at whole
        exact whole.congr (iff_of_true trivial (.inl (Nat.not_lt.mp fits)))
    · obtain ⟨calls, moves⟩ := waits.skips byte isMarked
      refine (Lands.cons moves (ih insideRest visibleRest)).congr ?_
      unfold NumberDerails
      rw [dropWhile_cons_of_pos (by simp [isMarked])]

section

variable (inside : lineFeed ∉ bytes)
include inside

theorem lands_tagOutput (visible : carriageReturn ∉ bytes) :
    Lands debug (.tagOutput none) bytes (NumberDerails percent outputDerails bytes) := by
  refine lands_number waits_tagOutput (by decide) inside visible fun pane rest insideRest visibleRest other => ?_
  cases rest with
  | nil => exact (@lands_of_stuck _ _ _ [_] rfl (.inl rfl)).congr (iff_of_true trivial rfl)
  | cons byte rest =>
    have isVisible : byte ≠ carriageReturn := fun same => visibleRest (same ▸ mem_cons_self)
    have insideOutput : lineFeed ∉ rest := fun member => insideRest (mem_cons_of_mem _ member)
    have visibleOutput : carriageReturn ∉ rest := fun member => visibleRest (mem_cons_of_mem _ member)
    have moves := @advance_untagged debug (.tagOutput (some pane)) byte trivial isVisible
    replace moves : advance debug (.tagOutput (some pane)) byte = advanceTagOutput (some pane) byte := moves
    unfold advanceTagOutput reportParseError at moves
    dsimp only at moves
    rw [if_neg (other byte rfl)] at moves
    by_cases separates : byte = space
    · rw [if_pos separates] at moves
      refine (Lands.cons moves (lands_paneOutput insideOutput visibleOutput)).congr ?_
      rw [outputDerails, separates]
      simp
    · rw [if_neg separates] at moves
      refine (Lands.cons moves (lands_error insideOutput)).congr (iff_of_false id ?_)
      rw [outputDerails]
      simp [separates]

theorem lands_tagWindowClose (visible : carriageReturn ∉ bytes) :
    Lands debug (.tagWindowClose none) bytes (NumberDerails at_ (fun _ => false) bytes) := by
  refine lands_number waits_tagWindowClose (by decide) inside visible fun window rest insideRest visibleRest other => ?_
  cases rest with
  | nil => exact (lands_of_end rfl).congr (iff_of_false id Bool.false_ne_true)
  | cons byte rest =>
    have isVisible : byte ≠ carriageReturn := fun same => visibleRest (same ▸ mem_cons_self)
    have isNoEnd : byte ≠ lineFeed := fun same => insideRest (same ▸ mem_cons_self)
    have moves := @advance_untagged debug (.tagWindowClose (some window)) byte trivial isVisible
    replace moves : advance debug (.tagWindowClose (some window)) byte = advanceTagWindowClose (some window) byte := moves
    unfold advanceTagWindowClose reportParseError at moves
    dsimp only at moves
    rw [if_neg (other byte rfl), if_neg isNoEnd] at moves
    refine (Lands.cons moves (lands_error ?_)).congr (iff_of_false id Bool.false_ne_true)
    exact fun member => insideRest (mem_cons_of_mem _ member)

theorem lands_tagUnknown {tag args : Bytes} :
    Lands debug (.tagUnknown tag args) bytes False := by
  have ends : ∀ args, ∃ calls, advance debug (.tagUnknown tag args) lineFeed = some (.beginningOfLine, calls) :=
    fun _ => ⟨_, rfl⟩
  obtain ⟨calls, ends⟩ := ends (if debug then args ++ withoutReturns bytes else args)
  rw [← append_nil bytes]
  exact Lands.after (parse_tagUnknown inside) (lands_of_end ends)

theorem lands_tagExit (visible : carriageReturn ∉ bytes) :
    Lands debug .tagExit bytes False := by
  cases bytes with
  | nil => exact lands_of_end rfl
  | cons byte bytes =>
    have isVisible : byte ≠ carriageReturn := fun same => visible (same ▸ mem_cons_self)
    have isNoEnd : byte ≠ lineFeed := fun same => inside (same ▸ mem_cons_self)
    have moves := @advance_untagged debug .tagExit byte trivial isVisible
    replace moves : advance debug .tagExit byte = advanceTagExit byte := moves
    unfold advanceTagExit reportParseError at moves
    rw [if_pos isNoEnd] at moves
    exact Lands.cons moves (lands_error fun member => inside (mem_cons_of_mem _ member))

end

theorem lands_ofTag {tag : Bytes} (unopened : tag ≠ ascii "begin") (inside : lineFeed ∉ bytes)
    (visible : carriageReturn ∉ bytes) : Lands debug (ofTag debug (tag.take maxTagLength)) bytes
      (tag = ascii "output" ∧ NumberDerails percent outputDerails bytes ∨
        (tag = ascii "window-close" ∨ tag = ascii "unlinked-window-close") ∧ NumberDerails at_ (fun _ => false) bytes) := by
  by_cases known : tag ∈ knownTags
  · have isKnown : tag = ascii "begin" ∨ tag = ascii "exit" ∨ tag = ascii "output" ∨ tag = ascii "window-close" ∨
        tag = ascii "unlinked-window-close" := by
      simpa [knownTags] using known
    rcases isKnown with same | rfl | rfl | rfl | rfl
    · exact absurd same unopened
    · have noOutput : ascii "exit" ≠ ascii "output" := by decide
      have noClose : ¬ (ascii "exit" = ascii "window-close" ∨ ascii "exit" = ascii "unlinked-window-close") := by decide
      exact (lands_tagExit inside visible).congr
        (iff_of_false id (not_or.mpr ⟨fun both => noOutput both.1, fun both => noClose both.1⟩))
    · have noClose : ¬ (ascii "output" = ascii "window-close" ∨ ascii "output" = ascii "unlinked-window-close") := by decide
      refine (lands_tagOutput inside visible).congr ?_
      rw [and_iff_right rfl, or_iff_left fun both => noClose both.1]
    · have noOutput : ascii "window-close" ≠ ascii "output" := by decide
      refine (lands_tagWindowClose inside visible).congr ?_
      rw [or_iff_right fun both => noOutput both.1, and_iff_right (.inl rfl)]
    · have noOutput : ascii "unlinked-window-close" ≠ ascii "output" := by decide
      refine (lands_tagWindowClose inside visible).congr ?_
      rw [or_iff_right fun both => noOutput both.1, and_iff_right (.inr rfl)]
  · have other : ∀ candidate ∈ knownTags, tag ≠ candidate := fun candidate isKnown same => known (same ▸ isKnown)
    rw [ofTag_unknown known]
    refine (lands_tagUnknown inside).congr (iff_of_false id ?_)
    rintro (⟨same, -⟩ | ⟨same | same, -⟩)
    · exact other _ (by decide) same
    · exact other _ (by decide) same
    · exact other _ (by decide) same

theorem lands_tagged {tag args : Bytes} (isTag : ∀ byte ∈ tag, byte ≠ space ∧ byte ≠ lineFeed ∧ byte ≠ carriageReturn)
    (isArgs : args = [] ∨ args.head? = some space) (lands : Lands debug (ofTag debug (tag.take maxTagLength)) args P) :
    Lands debug .beginningOfLine (percent :: (tag ++ args)) P := by
  have reads : parse debug .beginningOfLine (percent :: (tag ++ args) ++ [lineFeed]) =
      parse debug (ofTag debug (tag.take maxTagLength)) (args ++ [lineFeed]) := by
    rw [cons_append, append_assoc]
    rcases isArgs with rfl | isSpace
    · exact parse_tagged isTag (.inr rfl)
    · obtain ⟨args, rfl⟩ := List.head?_eq_some_iff.mp isSpace
      exact parse_tagged isTag (.inl rfl)
  unfold Lands at lands ⊢
  rw [reads]
  exact lands

theorem lands_line (inside : lineFeed ∉ bytes) (visible : carriageReturn ∉ bytes)
    (unopened : ¬ ∃ suffix, (suffix = [] ∨ suffix.head? = some space) ∧ bytes = ascii "%begin" ++ suffix) :
    Lands debug .beginningOfLine bytes (Derails bytes) := by
  cases bytes with
  | nil => exact (@lands_of_stuck _ _ _ [_] rfl (.inl rfl)).congr Iff.rfl
  | cons byte rest =>
    have insideRest : lineFeed ∉ rest := fun member => inside (mem_cons_of_mem _ member)
    have visibleRest : carriageReturn ∉ rest := fun member => visible (mem_cons_of_mem _ member)
    have isVisible : byte ≠ carriageReturn := fun same => visible (same ▸ mem_cons_self)
    by_cases isPercent : byte = percent
    · have whole : rest.takeWhile (· ≠ space) ++ rest.dropWhile (· ≠ space) = rest := takeWhile_append_dropWhile
      have isTag : ∀ byte ∈ rest.takeWhile (· ≠ space), byte ≠ space ∧ byte ≠ lineFeed ∧ byte ≠ carriageReturn := by
        intro byte member
        have isNoSpace := List.all_eq_true.mp all_takeWhile byte member
        have isRest := (takeWhile_sublist _).subset member
        refine ⟨of_decide_eq_true isNoSpace, ?_, ?_⟩
        · rintro rfl
          exact insideRest isRest
        · rintro rfl
          exact visibleRest isRest
      have isArgs : rest.dropWhile (· ≠ space) = [] ∨ (rest.dropWhile (· ≠ space)).head? = some space := by
        cases found : rest.dropWhile (· ≠ space) with
        | nil => exact .inl rfl
        | cons first args =>
          have kept := List.head?_dropWhile_not (· ≠ space) rest
          rw [found] at kept
          refine .inr (congrArg some ?_)
          simpa using kept
      have unopenedTag : rest.takeWhile (· ≠ space) ≠ ascii "begin" := by
        intro same
        refine unopened ⟨rest.dropWhile (· ≠ space), isArgs, ?_⟩
        rw [isPercent]
        refine congrArg (percent :: ·) ?_
        exact whole.symm.trans (congrArg (· ++ rest.dropWhile (· ≠ space)) same)
      have lands := lands_tagged isTag isArgs (@lands_ofTag debug (rest.dropWhile (· ≠ space)) _ unopenedTag
        (fun member => insideRest ((dropWhile_sublist _).subset member))
        (fun member => visibleRest ((dropWhile_sublist _).subset member)))
      rw [whole] at lands
      rw [isPercent]
      exact lands.congr (and_iff_right rfl).symm
    · have moves := @advance_untagged debug .beginningOfLine byte trivial isVisible
      replace moves : advance debug .beginningOfLine byte = advanceBeginningOfLine byte := moves
      unfold advanceBeginningOfLine reportParseError at moves
      rw [if_pos isPercent] at moves
      exact (Lands.cons moves (lands_error insideRest)).congr (iff_of_false id fun derails => isPercent derails.1)

def WellFormedLine (line : Bytes) : Prop := ∃ item : Item, item.WellFormed ∧ item.lines.head? = some line

/-- After the line the next one is read as by a new parser. -/
def Recovers (debug : Bool) (line : Bytes) : Prop :=
  ∃ state calls, parse debug .beginningOfLine (line ++ [lineFeed]) = some (state, calls) ∧ ∀ next, WellFormedLine next →
    parse debug state (next ++ [lineFeed]) = parse debug .beginningOfLine (next ++ [lineFeed])

theorem not_recovers_of_stuck (stuck : state.Stuck) :
    parse debug state (ascii "%exit" ++ [lineFeed]) ≠ some (.beginningOfLine, [.tmuxControlModeMessage .exit]) := by
  intro same
  rcases stuck with rfl | rfl | rfl
  · have calls : ([] : List Call) = [.tmuxControlModeMessage .exit] := congrArg Prod.snd (Option.some_inj.mp same)
    cases calls
  · have calls : [Call.tmuxControlModeMessage (.parseError "Non-digit character in %output pane number" 101)] =
        [.tmuxControlModeMessage .exit] := congrArg Prod.snd (Option.some_inj.mp same)
    cases calls
  · have count : 6 = 1 := congrArg (fun reached => (Prod.snd reached).length) (Option.some_inj.mp same)
    exact absurd count (by decide)

theorem recovers_iff {line : Bytes} (inside : lineFeed ∉ line) (unopened : ¬ OpensBlock line) :
    Recovers debug line ↔ ¬ Derails (withoutReturns line) := by
  have insideKept : lineFeed ∉ withoutReturns line := fun member => inside (mem_of_mem_filter member)
  have lands := @lands_line debug (withoutReturns line) insideKept not_mem_withoutReturns unopened
  have same : parse debug .beginningOfLine (withoutReturns line ++ [lineFeed]) =
      parse debug .beginningOfLine (line ++ [lineFeed]) := by
    have kept : withoutReturns line ++ [lineFeed] = withoutReturns (line ++ [lineFeed]) := by
      rw [withoutReturns_append]
      rfl
    rw [kept, parse_withoutReturns]
  unfold Lands at lands
  rw [same] at lands
  unfold Recovers
  rcases lands with ⟨straight, calls, ends⟩ | ⟨derails, stuck⟩
  · exact iff_of_true ⟨_, calls, ends, fun _ _ => rfl⟩ straight
  · refine iff_of_false ?_ fun straight => straight derails
    rintro ⟨state, calls, ends, next⟩
    have exits := next (ascii "%exit") ⟨.exit, trivial, rfl⟩
    rw [parse_exit] at exits
    exact not_recovers_of_stuck (stuck state calls ends) exits

/-- The parser and the commands end for what has no number beyond its type, and the parser is back at the beginning of a line
unless the line derails. -/
theorem total_and_recovers (debug : Bool) :
    (∀ bytes, (parse debug .beginningOfLine bytes).isSome ↔ Meets (advance debug) Fits .beginningOfLine bytes) ∧
      (∀ line, (parseCommand line).isSome ↔ ∀ leader ∈ [backgroundWindowPrefix, primaryWindowPanePrefix],
        ∀ captured, captures leader line = some captured → IdsFit captured) ∧
      ∀ line, lineFeed ∉ line → ¬ OpensBlock line → (Recovers debug line ↔ ¬ Derails (withoutReturns line)) :=
  ⟨fun _ => feed_isSome_iff fun _ _ => advance_isSome_iff, fun _ => parseCommand_isSome_iff,
    fun _ inside unopened => recovers_iff inside unopened⟩

theorem not_total_and_recovers : ¬ ∀ debug, (∀ bytes, (parse debug .beginningOfLine bytes).isSome) ∧
    (∀ line, (parseCommand line).isSome) ∧
    ∀ line, lineFeed ∉ line → ¬ OpensBlock line → Recovers debug line := by
  intro total
  have overflows : parse true .beginningOfLine (ascii "%output %4294967296 ") = none := rfl
  have ends := (total true).1 (ascii "%output %4294967296 ")
  rw [overflows] at ends
  cases ends

/-- An empty line leaves the parser in an error until the end of the next line. -/
example : parse true .beginningOfLine (ascii "\n%exit\n") =
    some (.beginningOfLine, [.tmuxControlModeMessage
      (.parseError "Received non-% character at the beginning of a line" 10)]) := rfl

end ParserState

end Warp.Tmux
