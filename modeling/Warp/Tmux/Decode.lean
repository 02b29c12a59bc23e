import Warp.Tmux.ControlMode

namespace Warp.Tmux

open List

open Ansi (Bytes ascii)
open Transducer

def ParserState.parseChunks (debugAssertions : Bool) (self : ParserState) (chunks : List Bytes) : ParserState.Outcome :=
  feed (parse debugAssertions) self chunks

theorem withoutReturns_written {lines : List Bytes} {bytes : Bytes} (written : Written lines bytes) :
    withoutReturns bytes = withoutReturns (lines.flatMap (· ++ [lineFeed])) := by
  induction written with
  | nil => rfl
  | lf _ ih =>
    rw [flatMap_cons, append_cons, withoutReturns_append, withoutReturns_append, ih, ← withoutReturns_append]
    rw [← withoutReturns_append]
  | crlf _ ih =>
    rw [flatMap_cons, withoutReturns_append, withoutReturns_append, withoutReturns_append, append_assoc, ← ih]
    rfl

namespace ParserState

variable {debug : Bool} {tag suffix bytes : Bytes} {byte : UInt8} {succeeded : Bool}

theorem parse_tagged (inside : ∀ byte ∈ tag, byte ≠ space ∧ byte ≠ lineFeed ∧ byte ≠ carriageReturn)
    (ends : byte = space ∨ byte = lineFeed) : parse debug .beginningOfLine (percent :: tag ++ byte :: bytes) =
      parse debug (ofTag debug (tag.take maxTagLength)) (byte :: bytes) := by
  have opens : advance debug .beginningOfLine percent = some (.readingTag [], []) := rfl
  have reads := @parse_tag debug _ [] (Nat.zero_le _) inside
  rw [cons_append, parse, feed_cons_silent opens, feed_append_of_some reads, after_nil, Option.map_id]
  exact parse_endOfTag ends

theorem parse_exit : parse debug .beginningOfLine (ascii "%exit" ++ [lineFeed]) =
    some (.beginningOfLine, [.tmuxControlModeMessage .exit]) := by
  cases debug <;> rfl

theorem parse_windowClose {digits : Bytes} (unlinked : Bool) (all : ∀ digit ∈ digits, isAsciiDigit digit)
    (fits : digitsValue 0 digits < 2 ^ 32) :
    parse debug .beginningOfLine ((if unlinked then ascii "%unlinked-window-close" else ascii "%window-close") ++ ascii " @" ++
      digits ++ [lineFeed]) =
      some (.beginningOfLine, [.tmuxControlModeMessage (.windowClose (digitsValue 0 digits))]) := by
  have leads : parse debug .beginningOfLine
      ((if unlinked then ascii "%unlinked-window-close" else ascii "%window-close") ++ ascii " @") =
        some (.tagWindowClose (some 0), []) := by
    cases debug <;> cases unlinked <;> rfl
  have number := @parse_number debug _ _ reads_tagWindowClose all fits
  exact feed_trans (feed_trans leads number) rfl

theorem parse_output {digits output : Bytes} (all : ∀ digit ∈ digits, isAsciiDigit digit) (fits : digitsValue 0 digits < 2 ^ 32) :
    parse debug .beginningOfLine (ascii "%output %" ++ digits ++ ascii " " ++ output.flatMap escapeByte ++ [lineFeed]) =
      some (.beginningOfLine, output.map (.paneOutput (digitsValue 0 digits))) := by
  have leads : parse debug .beginningOfLine (ascii "%output %") = some (.tagOutput (some 0), []) := by
    cases debug <;> rfl
  have number := @parse_number debug _ _ reads_tagOutput all fits
  have separates : parse debug (.tagOutput (some (digitsValue 0 digits))) (ascii " ") =
      some (.readingPaneOutput (digitsValue 0 digits) none, []) := rfl
  have reads := @parse_paneOutput debug (digitsValue 0 digits) output
  have line := feed_trans (feed_trans (feed_trans leads number) separates) reads
  have ends := feed_trans line (show parse debug _ [lineFeed] = some (.beginningOfLine, []) from rfl)
  rw [nil_append, append_nil] at ends
  exact ends

theorem ofTag_unknown (unknown : tag ∉ knownTags) :
    ofTag debug (tag.take maxTagLength) = .tagUnknown (if debug then tag.take maxTagLength else []) [] := by
  have other : ∀ known ∈ knownTags, tag.take maxTagLength ≠ known := by
    intro known isKnown same
    have short : ∀ known ∈ knownTags, known.length < maxTagLength := by decide
    have cut : (tag.take maxTagLength).length < maxTagLength := same ▸ short known isKnown
    rw [length_take] at cut
    rw [take_of_length_le (by omega)] at same
    exact unknown (same ▸ isKnown)
  unfold ofTag
  rw [if_neg (other _ (by decide)), if_neg (other _ (by decide)), if_neg (other _ (by decide)),
    if_neg (not_or.mpr ⟨other _ (by decide), other _ (by decide)⟩)]

theorem parse_notification (inside : ∀ byte ∈ tag, byte ≠ space ∧ byte ≠ lineFeed ∧ byte ≠ carriageReturn)
    (unknown : tag ∉ knownTags) (isSuffix : Suffix suffix) :
    parse debug .beginningOfLine (ascii "%" ++ tag ++ suffix ++ [lineFeed]) = some (.beginningOfLine,
      if debug then [.tmuxControlModeMessage (.unknown (tag.take maxTagLength) (withoutReturns suffix))] else []) := by
  have ends : parse debug (ofTag debug (tag.take maxTagLength)) (suffix ++ [lineFeed]) = some (.beginningOfLine,
      if debug then [.tmuxControlModeMessage (.unknown (tag.take maxTagLength) (withoutReturns suffix))] else []) := by
    rw [ofTag_unknown unknown]
    have reads := @parse_tagUnknown debug _ (if debug then tag.take maxTagLength else []) []
      isSuffix.2
    refine (feed_append_of_some reads).trans ?_
    cases debug <;> rfl
  rw [← ends]
  rcases isSuffix.1 with rfl | isSpace
  · rw [append_nil]
    exact parse_tagged inside (.inr rfl)
  · obtain ⟨rest, rfl⟩ := List.head?_eq_some_iff.mp isSpace
    rw [append_assoc]
    exact parse_tagged inside (.inl rfl)

theorem parse_begin (isSuffix : Suffix suffix) :
    parse debug .beginningOfLine (ascii "%begin" ++ suffix ++ [lineFeed]) = some (.readingCommandOutput [] [], []) := by
  have inside : ∀ byte ∈ ascii "begin", byte ≠ space ∧ byte ≠ lineFeed ∧ byte ≠ carriageReturn := by decide +kernel
  have ends : parse debug .tagBegin (suffix ++ [lineFeed]) = some (.readingCommandOutput [] [], []) :=
    feed_trans (parse_tagBegin isSuffix.2) rfl
  rcases isSuffix.1 with rfl | isSpace
  · rw [append_nil]
    exact (parse_tagged inside (.inr rfl)).trans ends
  · obtain ⟨rest, rfl⟩ := List.head?_eq_some_iff.mp isSpace
    rw [append_assoc]
    exact (parse_tagged inside (.inl rfl)).trans ends

theorem parse_outputLine {line : Bytes} {lines : List Bytes} (inside : lineFeed ∉ line)
    (unguarded : ∀ succeeded, ¬ guardOf succeeded <+: withoutReturns line) :
    parse debug (.readingCommandOutput [] lines) (line ++ [lineFeed]) =
      some (.readingCommandOutput [] (lines ++ [withoutReturns line]), []) := by
  refine feed_trans (parse_currentLine inside) ?_
  have ends : advance debug (.readingCommandOutput (withoutReturns line) lines) lineFeed =
      some (.readingCommandOutput [] (lines ++ [withoutReturns line]), []) := by
    rw [@advance_untagged debug (.readingCommandOutput (withoutReturns line) lines) lineFeed trivial (by decide)]
    show advanceReadingCommandOutput _ _ _ = _
    unfold advanceReadingCommandOutput
    rw [if_pos rfl, if_neg (show ¬ ascii "%end" <+: _ from unguarded true),
      if_neg (show ¬ ascii "%error" <+: _ from unguarded false)]
  exact feed_cons_silent ends

theorem parse_outputLines {lines before : List Bytes} (inside : ∀ line ∈ lines, lineFeed ∉ line)
    (unguarded : ∀ line ∈ lines, ∀ succeeded, ¬ guardOf succeeded <+: withoutReturns line) :
    parse debug (.readingCommandOutput [] before) (lines.flatMap (· ++ [lineFeed])) =
      some (.readingCommandOutput [] (before ++ lines.map withoutReturns), []) := by
  induction lines generalizing before with
  | nil =>
    rw [map_nil, append_nil]
    rfl
  | cons line lines ih =>
    have first := @parse_outputLine debug _ before (inside line mem_cons_self)
      (unguarded line mem_cons_self)
    have rest := @ih (before ++ [withoutReturns line]) (fun line member => inside line (mem_cons_of_mem _ member))
      fun line member => unguarded line (mem_cons_of_mem _ member)
    rw [append_assoc] at rest
    exact feed_trans first rest

theorem parse_guard {lines : List Bytes} (isSuffix : Suffix suffix) :
    parse debug (.readingCommandOutput [] lines) (guardOf succeeded ++ suffix ++ [lineFeed]) =
      some (.beginningOfLine,
        [.tmuxControlModeMessage (.commandOutput (if succeeded then .ok lines else .error lines))]) := by
  have inside : lineFeed ∉ guardOf succeeded ++ suffix := by
    intro member
    rcases List.mem_append.mp member with isGuard | isSuffix'
    · revert isGuard
      cases succeeded <;> decide
    · exact isSuffix.2 isSuffix'
  have isGuard : withoutReturns (guardOf succeeded ++ suffix) = guardOf succeeded ++ withoutReturns suffix := by
    rw [withoutReturns_append, withoutReturns_eq (by cases succeeded <;> decide)]
  refine feed_trans (parse_currentLine inside) ?_
  rw [nil_append, isGuard]
  have ends : advance debug (.readingCommandOutput (guardOf succeeded ++ withoutReturns suffix) lines) lineFeed =
      some (.beginningOfLine,
        [.tmuxControlModeMessage (.commandOutput (if succeeded then .ok lines else .error lines))]) := by
    rw [@advance_untagged debug (.readingCommandOutput (guardOf succeeded ++ withoutReturns suffix) lines) lineFeed trivial
      (by decide)]
    show advanceReadingCommandOutput _ _ _ = _
    unfold advanceReadingCommandOutput
    rw [if_pos rfl]
    cases succeeded with
    | true => exact if_pos (prefix_append _ _)
    | false =>
      have other : ¬ ascii "%end" <+: guardOf false ++ withoutReturns suffix := by
        rintro ⟨rest, same⟩
        have third : some (110 : UInt8) = some 114 := congrArg (fun bytes : Bytes => bytes[2]?) same
        exact absurd third (by decide)
      exact (if_neg other).trans (if_pos (prefix_append _ _))
  rw [feed_cons ends]
  rfl

theorem parse_item {item : Item} (wellFormed : item.WellFormed) (unguarded : item.Unguarded) :
    parse debug .beginningOfLine (item.lines.flatMap (· ++ [lineFeed])) =
      some (.beginningOfLine, item.received.calls debug) := by
  cases item with
  | paneOutput pane output =>
    obtain ⟨all, value⟩ := @decimal_digits pane
    have reads := @parse_output debug _ output all (by rw [value]; exact wellFormed)
    rw [value] at reads
    exact (congrArg _ (flatMap_singleton _ _)).trans reads
  | commandBlock suffix succeeded lines endSuffix =>
    obtain ⟨isSuffix, isEndSuffix, inside⟩ := wellFormed
    have block := feed_trans (feed_trans (@parse_begin debug _ isSuffix)
      (parse_outputLines (fun line member => (inside line member).1) unguarded)) (@parse_guard debug _ succeeded _ isEndSuffix)
    rw [nil_append] at block
    have isBlock : (Item.commandBlock suffix succeeded lines endSuffix).lines.flatMap (· ++ [lineFeed]) =
        ascii "%begin" ++ suffix ++ [lineFeed] ++ lines.flatMap (· ++ [lineFeed]) ++ (guardOf succeeded ++ endSuffix ++ [lineFeed]) := by
      show (_ :: lines ++ [_]).flatMap _ = _
      rw [flatMap_append, flatMap_cons, flatMap_singleton]
    rw [isBlock]
    exact block
  | windowClose unlinked window =>
    obtain ⟨all, value⟩ := @decimal_digits window
    have reads := @parse_windowClose debug _ unlinked all (by rw [value]; exact wellFormed)
    rw [value] at reads
    exact (congrArg _ (flatMap_singleton _ _)).trans reads
  | exit => exact @parse_exit debug
  | notification tag suffix =>
    obtain ⟨inside, unknown, isSuffix⟩ := wellFormed
    exact (congrArg _ (flatMap_singleton _ _)).trans (parse_notification inside unknown isSuffix)

theorem parse_items {items : List Item} (wellFormed : ∀ item ∈ items, item.WellFormed)
    (unguarded : ∀ item ∈ items, item.Unguarded) :
    parse debug .beginningOfLine ((items.flatMap Item.lines).flatMap (· ++ [lineFeed])) =
      some (.beginningOfLine, items.flatMap fun item => item.received.calls debug) := by
  induction items with
  | nil => rfl
  | cons item items ih =>
    rw [flatMap_cons, flatMap_append, flatMap_cons]
    exact feed_trans (parse_item (wellFormed item mem_cons_self) (unguarded item mem_cons_self))
      (ih (fun item member => wellFormed item (mem_cons_of_mem _ member))
        fun item member => unguarded item (mem_cons_of_mem _ member))

/-- Whatever tmux writes arrives, without its carriage returns, however it is cut. -/
theorem parseChunks_written (debug : Bool) (items : List Item) (wellFormed : ∀ item ∈ items, item.WellFormed)
    (unguarded : ∀ item ∈ items, item.Unguarded) (chunks : List Bytes)
    (written : Written (items.flatMap Item.lines) chunks.flatten) :
    parseChunks debug .beginningOfLine chunks =
      some (.beginningOfLine, items.flatMap fun item => item.received.calls debug) := by
  unfold parseChunks
  rw [← feed_flatten]
  show parse debug _ _ = _
  rw [← parse_withoutReturns, withoutReturns_written written, parse_withoutReturns]
  exact parse_items wellFormed unguarded

theorem parseChunks_written_output : parseChunks true .beginningOfLine [ascii "%output %1 a\\1", ascii "34\r\n%exit\n"] =
    some (.beginningOfLine, ([.paneOutput 1 (ascii "a\\"), .exit] : List Item).flatMap fun item => item.received.calls true) := by
  refine parseChunks_written true _ ?_ ?_ _ (.crlf (.lf .nil))
  · simp [Item.WellFormed]
  · simp [Item.Unguarded]

theorem not_parseChunks_written : ¬ ∀ (items : List Item) (chunks : List Bytes), (∀ item ∈ items, item.WellFormed) →
    Written (items.flatMap Item.lines) chunks.flatten →
      parseChunks true .beginningOfLine chunks = some (.beginningOfLine, items.flatMap (Item.calls true)) := by
  intro exact
  have progress : (Item.commandBlock [] true [ascii "1%\r2%"] []).WellFormed := by
    refine ⟨⟨.inl rfl, by decide⟩, ⟨.inl rfl, by decide⟩, fun line member => ?_⟩
    rw [List.mem_singleton.mp member]
    refine ⟨by decide, ?_⟩
    rintro ⟨succeeded, suffix, -, same⟩
    have first : some (49 : UInt8) = some 37 := by
      cases succeeded <;> exact congrArg List.head? same
    exact absurd first (by decide)
  have read := exact [.commandBlock [] true [ascii "1%\r2%"] []] [ascii "%begin\n1%\r2%\n%end\n"]
    (fun item member => List.mem_singleton.mp member ▸ progress) (.lf (.lf (.lf .nil)))
  have isRead : parseChunks true .beginningOfLine [ascii "%begin\n1%\r2%\n%end\n"] =
      some (.beginningOfLine, [.tmuxControlModeMessage (.commandOutput (.ok [ascii "1%2%"]))]) := rfl
  rw [isRead] at read
  injection read with same
  injection same with _ same
  injection same with same
  injection same with same
  injection same with same
  injection same with same
  injection same with same
  exact absurd same (by decide)

end ParserState

end Warp.Tmux
