import Warp.Completer.Grammar

namespace Warp.Completer

open List

variable {source : Str} {pos start : ℕ} {tokens more : List Token} {t : Token} {r : Bool}

/-- The tokens with the spans they have when they stand one behind the other from `pos` on. -/
def spanTokens : ℕ → List Token → List (Spanned Token)
  | _, [] => []
  | pos, t :: tokens => ⟨t, ⟨pos, pos + t.asStr.length⟩⟩ :: spanTokens (pos + t.asStr.length) tokens

def width (tokens : List Token) : ℕ := (Token.text tokens).length

@[simp] theorem width_nil : width [] = 0 := rfl

@[simp] theorem width_cons (t : Token) (tokens : List Token) : width (t :: tokens) = t.asStr.length + width tokens := by
  simp [width]

@[simp] theorem width_append (tokens more : List Token) : width (tokens ++ more) = width tokens + width more := by
  simp [width]

def Parser.reading (pos : ℕ) (tokens : List Token) (r : Bool) : Parser := ⟨⟨spanTokens pos tokens, pos⟩, r⟩

section Reading

open Parser

@[simp] theorem reading_pos : (reading pos tokens r).pos = pos := rfl

@[simp] theorem reading_peek_nil : (reading pos [] r).peek = none := rfl

@[simp] theorem reading_peek_cons : (reading pos (t :: tokens) r).peek = some t := rfl

@[simp] theorem reading_peekpeek_cons : (reading pos (t :: tokens) r).tokens.peekpeek = tokens.head? := by
  cases tokens <;> rfl

@[simp] theorem reading_next : (reading pos (t :: tokens) r).next = reading (pos + t.asStr.length) tokens r := rfl

@[simp] theorem reading_span : (reading pos tokens r).span start = ⟨start, pos⟩ := rfl

theorem skipWhitespace_blank (blank : Str) :
    (reading pos (.whitespace blank :: tokens) r).skipWhitespace = (reading (pos + blank.length) tokens r).skipWhitespace :=
  rfl

theorem skipWhitespace_cons (solid : t.isWhitespace = false) :
    (reading pos (t :: tokens) r).skipWhitespace = reading pos (t :: tokens) r := by
  simp [skipWhitespace, skipWhitespace.go, reading, spanTokens, solid, Parser.pos]

theorem skipWhitespace_idem (p : Parser) : p.skipWhitespace.skipWhitespace = p.skipWhitespace := by
  have settled : ∀ (tokens : List (Spanned Token)) (pos : ℕ), skipWhitespace.go (skipWhitespace.go tokens pos).tokens
      (skipWhitespace.go tokens pos).pos = skipWhitespace.go tokens pos := by
    intro tokens
    induction tokens with
    | nil => exact fun pos => rfl
    | cons t tokens ih =>
      intro pos
      by_cases blank : t.item.isWhitespace
      · simp only [skipWhitespace.go, blank, if_true]
        exact ih _
      · simp [skipWhitespace.go, blank]
  simp only [skipWhitespace, Parser.pos]
  rw [settled]

end Reading

section Backticks

open Parser

theorem spanTokens_append : spanTokens pos (tokens ++ more) = spanTokens pos tokens ++ spanTokens (pos + width tokens) more := by
  induction tokens generalizing pos with
  | nil => rfl
  | cons t tokens ih => simp [spanTokens, ih, Nat.add_assoc]

theorem spanTokens_item : ∀ s ∈ spanTokens pos tokens, s.item ∈ tokens := by
  induction tokens generalizing pos with
  | nil => exact fun _ inside => absurd inside not_mem_nil
  | cons t tokens ih =>
    intro s inside
    rcases List.mem_cons.mp inside with rfl | later
    · exact mem_cons_self
    · exact mem_cons_of_mem _ (ih s later)

theorem spanTokens_getLast (tokens : List Token) (pos : ℕ) :
    ((spanTokens pos tokens).getLast?.map fun s => s.span.stop).getD pos = pos + width tokens := by
  induction tokens generalizing pos with
  | nil => rfl
  | cons t tokens ih =>
    have later := ih (pos + t.asStr.length)
    cases tokens with
    | nil => simp [spanTokens]
    | cons u tokens =>
      rw [spanTokens, width_cons, ← Nat.add_assoc, ← later, spanTokens, List.getLast?_cons_cons]
      obtain ⟨last, isLast⟩ : ∃ last, (⟨u, ⟨pos + t.asStr.length, pos + t.asStr.length + u.asStr.length⟩⟩ ::
          spanTokens (pos + t.asStr.length + u.asStr.length) tokens).getLast? = some last :=
        ⟨_, List.getLast?_eq_some_getLast (cons_ne_nil _ _)⟩
      rw [isLast]
      rfl

theorem untilBacktick_reading (plain : Token.backtick ∉ tokens) :
    (reading pos (tokens ++ .backtick :: more) r).tokens.untilBacktick =
      ((reading pos tokens r).tokens, (reading (pos + width tokens) (.backtick :: more) r).tokens) := by
  have others : ∀ s ∈ spanTokens pos tokens, decide (s.item ≠ .backtick) = true := by
    intro s inside
    exact decide_eq_true fun same => plain (same ▸ spanTokens_item s inside)
  unfold ParserInput.untilBacktick reading
  simp only [spanTokens_append]
  rw [takeWhile_append_of_pos others, dropWhile_append_of_pos others]
  simp [spanTokens, spanTokens_getLast]

end Backticks

def At (source : Str) (pos : ℕ) (tokens : List Token) : Prop := Token.text tokens <+: source.drop pos

theorem At.left (at' : At source pos (tokens ++ more)) : At source pos tokens := by
  unfold At at *
  rw [Token.text_append] at at'
  exact (prefix_append _ _).trans at'

theorem At.right (at' : At source pos (tokens ++ more)) : At source (pos + width tokens) more := by
  unfold At at *
  obtain ⟨behind, all⟩ := at'
  rw [Token.text_append, append_assoc] at all
  refine ⟨behind, ?_⟩
  rw [← drop_drop, ← all, width, drop_left]

theorem At.tail (at' : At source pos (t :: tokens)) : At source (pos + t.asStr.length) tokens := by
  have right := @At.right source pos [t] tokens at'
  rwa [width_cons, width_nil, Nat.add_zero] at right

theorem At.slice (at' : At source pos tokens) : (⟨pos, pos + width tokens⟩ : Span).slice source = Token.text tokens := by
  obtain ⟨behind, all⟩ := at'
  unfold Span.slice
  rw [← all, Nat.add_sub_cancel_left, width, take_left]

end Warp.Completer
