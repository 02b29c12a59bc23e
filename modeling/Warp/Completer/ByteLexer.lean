import Mathlib.Data.List.TakeWhile
import Warp.Completer.Lexer
import Warp.Lib.ByteSlice

namespace Warp.Completer

open List Option

namespace Span

/-- Panics if the span ends before it starts. -/
def new (start stop : ℕ) : Option Span := if start ≤ stop then some ⟨start, stop⟩ else none

def untilSpan (s other : Span) : Option Span := new s.start other.stop

/-- The text of a span in bytes. Panics off character boundaries. -/
def byteSlice (s : Span) (source : Str) : Option Str := source.byteSlice s.start s.stop

end Span

/-- The lexer with its position in bytes. Where it has no result, it panics. -/
structure ByteLexer where
  source : Str
  escapeChar : EscapeChar
  pos : ℕ
  queued : Option Classified
  parseQuotesAsLiterals : Bool

namespace ByteLexer

def new (source : Str) (escapeChar : EscapeChar) (parseQuotesAsLiterals : Bool) : ByteLexer :=
  ⟨source, escapeChar, 0, none, parseQuotesAsLiterals⟩

def peek (l : ByteLexer) : Option (Option (Span × Char)) :=
  (l.source.splitBytes l.pos).bind fun parts =>
    match parts.2 with
    | [] => some none
    | chr :: _ => (Span.new l.pos (l.pos + chr.utf8Size)).map fun span => some (span, chr)

def step (l : ByteLexer) : Option (Option (Span × Char) × ByteLexer) :=
  l.peek.map fun
    | some (span, chr) => (some (span, chr), { l with pos := span.stop })
    | none => (none, l)

def whitespaceSpan : ℕ → Span → ByteLexer → Option (Span × ByteLexer)
  | 0, _, _ => none
  | fuel + 1, span, l =>
    l.peek.bind fun
      | some (next, chr) =>
        if Str.isWhitespace chr && chr ≠ '\n' then
          (span.untilSpan next).bind fun span => whitespaceSpan fuel span { l with pos := next.stop }
        else some (span, l)
      | none => some (span, l)

def shifted (start : ℕ) (token : Option (Spanned Token)) : Option (Option (Spanned Token)) :=
  match token with
  | none => some none
  | some token =>
    (Span.new (token.span.start + start) (token.span.stop + start)).map fun span => some ⟨token.item, span⟩

mutual

/-- A doubled operator consumes its second character as a token of its own. -/
def classifyNext : ℕ → ByteLexer → Option (Option Classified × ByteLexer)
  | 0, _ => none
  | fuel + 1, l =>
    match l.queued with
    | some classified => some (some classified, { l with queued := none })
    | none =>
      l.step.bind fun
      | (none, l) => some (none, l)
      | (some (span, chr), l) =>
        let one (token : Token) : Option (Option Classified × ByteLexer) := some (some (.token ⟨token, span⟩), l)
        let doubled (both single : Token) : Option (Option Classified × ByteLexer) :=
          l.peek.bind fun
          | some (next, other) =>
            if other = chr then
              (nextToken fuel l).bind fun consumed =>
                (span.untilSpan next).map fun span => (some (.token ⟨both, span⟩), consumed.2)
            else one single
          | none => one single
        if chr = '|' then doubled .logicalOr .pipe
        else if chr = '&' then doubled .logicalAnd .ampersand
        else match Lexer.single l.parseQuotesAsLiterals chr with
          | some token => one token
          | none =>
            if l.escapeChar.isChar chr then
              l.step.bind fun stepped =>
                (match stepped.1 with
                  | none => some none
                  | some (following, _) =>
                    (following.byteSlice l.source).bind fun text =>
                      (nextToken fuel (new text l.escapeChar l.parseQuotesAsLiterals)).bind fun inner =>
                        shifted l.pos inner.1).bind fun next =>
                  (span.byteSlice l.source).map fun escape =>
                    (some (.escaped ⟨.escapeChar escape, span⟩ next), stepped.2)
            else if chr = '`' then one .backtick
            else if Str.isWhitespace chr then
              (whitespaceSpan (l.source.length + 1) span l).bind fun read =>
                (read.1.byteSlice l.source).map fun value => (some (.token ⟨.whitespace value, read.1⟩), read.2)
            else some (some (.raw ⟨chr, span⟩), l)

def nextToken : ℕ → ByteLexer → Option (Option (Spanned Token) × ByteLexer)
  | 0, _ => none
  | fuel + 1, l =>
    (classifyNext fuel l).bind fun
    | (none, l) => some (none, l)
    | (some (.token token), l) => some (some token, l)
    | (some (.escaped escape next), l) => some (some escape, { l with queued := next.map .token })
    | (some (.raw chr), l) =>
      (literalSpan fuel chr.span l).bind fun read =>
        (read.1.byteSlice l.source).map fun value => (some ⟨.literal value, read.1⟩, read.2)

/-- The raw characters that go on after `span`. What ends them is queued. -/
def literalSpan : ℕ → Span → ByteLexer → Option (Span × ByteLexer)
  | 0, _, _ => none
  | fuel + 1, span, l =>
    (classifyNext fuel l).bind fun
    | (some (.raw chr), l) => (span.untilSpan chr.span).bind fun span => literalSpan fuel span l
    | (other, l) => some (span, { l with queued := other })

end

def collect (budget : ℕ) : ℕ → ByteLexer → Option (List (Spanned Token))
  | 0, _ => none
  | fuel + 1, l =>
    (nextToken budget l).bind fun
    | (none, _) => some []
    | (some token, l) => (collect budget fuel l).map fun tokens => token :: tokens

def tokens (source : Str) (escapeChar : EscapeChar) (parseQuotesAsLiterals : Bool) : Option (List (Spanned Token)) :=
  collect (2 * source.length + 8) (2 * source.length + 2) (new source escapeChar parseQuotesAsLiterals)

end ByteLexer

/-! The positions of the lexer that counts characters, in bytes. -/

section Bytes

variable (source : Str)

def bytesAt (count : ℕ) : ℕ := Str.byteLen (source.take count)

def Span.bytes (s : Span) : Span := ⟨bytesAt source s.start, bytesAt source s.stop⟩

def Spanned.bytes {α : Type} (s : Spanned α) : Spanned α := ⟨s.item, s.span.bytes source⟩

def Classified.bytes : Classified → Classified
  | .token t => .token (t.bytes source)
  | .raw chr => .raw (chr.bytes source)
  | .escaped escape next => .escaped (escape.bytes source) (next.map (Spanned.bytes source))

variable {source}

@[simp] theorem bytesAt_zero : bytesAt source 0 = 0 := rfl

theorem bytesAt_add (start count : ℕ) :
    bytesAt source (start + count) = bytesAt source start + Str.byteLen ((source.drop start).take count) := by
  rw [bytesAt, take_add, Str.byteLen_append]
  rfl

theorem bytesAt_mono {start stop : ℕ} (order : start ≤ stop) : bytesAt source start ≤ bytesAt source stop := by
  obtain ⟨count, rfl⟩ := Nat.exists_eq_add_of_le order
  rw [bytesAt_add]
  exact Nat.le_add_right _ _

theorem bytesAt_lt {start stop : ℕ} (order : start < stop) (bound : start < source.length) :
    bytesAt source start < bytesAt source stop := by
  obtain ⟨count, rfl⟩ := Nat.exists_eq_add_of_lt order
  rw [Nat.add_assoc, bytesAt_add, drop_eq_getElem_cons bound, take_succ_cons, Str.byteLen_cons]
  have := source[start].utf8Size_pos
  omega

theorem splitBytes_bytesAt (count : ℕ) :
    source.splitBytes (bytesAt source count) = some (source.take count, source.drop count) :=
  Str.splitBytes_eq_some_iff.mpr ⟨(take_append_drop count source).symm, rfl⟩

theorem byteSlice_bytesAt (start count : ℕ) :
    source.byteSlice (bytesAt source start) (bytesAt source (start + count)) = some ((source.drop start).take count) := by
  refine Str.byteSlice_eq_some_iff.mpr ⟨source.take start, (source.drop start).drop count, ?_, rfl, ?_⟩
  · rw [append_assoc, take_append_drop, take_append_drop]
  · rw [bytesAt_add]

theorem Span.untilSpan_bytes {s t : Span} (order : s.start ≤ t.stop) :
    (s.bytes source).untilSpan (t.bytes source) = some ((s.till t).bytes source) :=
  if_pos (bytesAt_mono order)

end Bytes

namespace ByteLexer

section Position

variable (source : Str) (escape : EscapeChar) (quotes : Bool)

def behind (count : ℕ) (queued : Option Classified) : ByteLexer :=
  ⟨source, escape, bytesAt source count, queued.map (Classified.bytes source), quotes⟩

def lexerBehind (count : ℕ) : Lexer := ⟨source.drop count, escape, count, quotes⟩

variable {source escape quotes} {count : ℕ} {queued : Option Classified}

theorem new_eq : new source escape quotes = behind source escape quotes 0 none := rfl

theorem advance_lexerBehind (more : ℕ) :
    (lexerBehind source escape quotes count).advance more = lexerBehind source escape quotes (count + more) := by
  simp only [lexerBehind, Lexer.advance, drop_drop]

theorem peek_end (ends : source.drop count = []) : (behind source escape quotes count queued).peek = some none := by
  unfold peek behind
  rw [splitBytes_bytesAt, ends]
  rfl

theorem bytesAt_succ {chr : Char} {rest : Str} (here : source.drop count = chr :: rest) :
    bytesAt source (count + 1) = bytesAt source count + chr.utf8Size := by
  rw [bytesAt_add, here, take_succ_cons, take_zero, Str.byteLen_cons, Str.byteLen_nil, Nat.add_zero]

theorem peek_cons {chr : Char} {rest : Str} (here : source.drop count = chr :: rest) :
    (behind source escape quotes count queued).peek = some (some ((⟨count, count + 1⟩ : Span).bytes source, chr)) := by
  unfold peek behind Span.bytes
  rw [splitBytes_bytesAt, here, bytesAt_succ here]
  simp [Span.new]

theorem step_end (ends : source.drop count = []) : (behind source escape quotes count queued).step =
    some (none, behind source escape quotes count queued) := by
  unfold step
  rw [peek_end ends]
  rfl

theorem step_cons {chr : Char} {rest : Str} (here : source.drop count = chr :: rest) :
    (behind source escape quotes count queued).step =
      some (some ((⟨count, count + 1⟩ : Span).bytes source, chr), behind source escape quotes (count + 1) queued) := by
  unfold step
  rw [peek_cons here]
  rfl

theorem drop_succ {chr : Char} {rest : Str} (here : source.drop count = chr :: rest) :
    source.drop (count + 1) = rest := by
  rw [← drop_drop, here]
  rfl

theorem byteSlice_span (start more : ℕ) :
    ((⟨start, start + more⟩ : Span).bytes source).byteSlice source = some ((source.drop start).take more) :=
  byteSlice_bytesAt start more

theorem byteSlice_cons {chr : Char} {rest : Str} (here : source.drop count = chr :: rest) :
    ((⟨count, count + 1⟩ : Span).bytes source).byteSlice source = some [chr] := by
  rw [byteSlice_span, here]
  rfl

theorem whitespaceSpan_eq (fuel start : ℕ) (order : start ≤ count) (enough : (source.drop count).length < fuel) :
    whitespaceSpan fuel ((⟨start, count⟩ : Span).bytes source) (behind source escape quotes count none) =
      some ((⟨start, count + Lexer.whitespaceLength (source.drop count)⟩ : Span).bytes source,
        behind source escape quotes (count + Lexer.whitespaceLength (source.drop count)) none) := by
  induction fuel generalizing count with
  | zero => cases enough
  | succ fuel ih =>
    unfold whitespaceSpan
    cases here : source.drop count with
    | nil =>
      rw [peek_end here]
      rfl
    | cons chr rest =>
      rw [peek_cons here]
      simp only [bind_some]
      have next := drop_succ here
      unfold Lexer.whitespaceLength
      split
      · rename_i isWhite
        rw [here, length_cons] at enough
        have order' : (⟨start, count⟩ : Span).start ≤ (⟨count, count + 1⟩ : Span).stop := Nat.le_succ_of_le order
        rw [Span.untilSpan_bytes order', bind_some, takeWhile_cons_of_pos (by simpa using isWhite)]
        refine (ih (by omega) (by rw [next]; omega)).trans ?_
        rw [next, length_cons]
        unfold Lexer.whitespaceLength
        rw [Nat.add_right_comm, Nat.add_assoc]
      · rename_i other
        rw [takeWhile_cons_of_neg (by simpa using other)]
        rfl

@[simp] theorem source_behind : (behind source escape quotes count queued).source = source := rfl

@[simp] theorem escapeChar_behind : (behind source escape quotes count queued).escapeChar = escape := rfl

@[simp] theorem pos_behind : (behind source escape quotes count queued).pos = bytesAt source count := rfl

@[simp] theorem parseQuotesAsLiterals_behind :
    (behind source escape quotes count queued).parseQuotesAsLiterals = quotes := rfl

theorem classifyNext_queued (fuel : ℕ) (classified : Classified) :
    classifyNext (fuel + 1) (behind source escape quotes count (some classified)) =
      some (some (classified.bytes source), behind source escape quotes count none) := by
  rw [classifyNext]
  rfl

theorem classifyNext_end (fuel : ℕ) (ends : source.drop count = []) :
    classifyNext (fuel + 1) (behind source escape quotes count none) =
      some (none, behind source escape quotes count none) := by
  have nothing : (behind source escape quotes count none).queued = none := rfl
  rw [classifyNext, nothing]
  dsimp only
  rw [step_end ends]
  rfl

inductive IsOperator : Char → Token → Token → Prop
  | pipe : IsOperator '|' .pipe .logicalOr
  | ampersand : IsOperator '&' .ampersand .logicalAnd

variable {chr : Char} {rest : Str} {single both : Token}

section

variable (isOperator : IsOperator chr single both)
include isOperator

theorem classifyNext_single (fuel : ℕ) (here : source.drop count = chr :: rest) (other : rest.head? ≠ some chr) :
    classifyNext (fuel + 1) (behind source escape quotes count none) =
      some (some (.token (Spanned.bytes source ⟨single, ⟨count, count + 1⟩⟩)),
        behind source escape quotes (count + 1) none) := by
  have nothing : (behind source escape quotes count none).queued = none := rfl
  have next := drop_succ here
  rw [classifyNext, nothing]
  dsimp only
  rw [step_cons here]
  simp only [bind_some]
  cases rest with
  | nil => cases isOperator <;> simp [peek_end next, Spanned.bytes]
  | cons d rest =>
    have differs : d ≠ chr := by simpa using other
    cases isOperator <;> simp [peek_cons next, differs, Spanned.bytes]

theorem classifyNext_double (fuel : ℕ) (here : source.drop count = chr :: chr :: rest) {token : Option (Spanned Token)}
    {l : ByteLexer} (consumed : nextToken fuel (behind source escape quotes (count + 1) none) = some (token, l)) :
    classifyNext (fuel + 1) (behind source escape quotes count none) =
      some (some (.token (Spanned.bytes source ⟨both, ⟨count, count + 2⟩⟩)), l) := by
  have nothing : (behind source escape quotes count none).queued = none := rfl
  have next := drop_succ here
  have order : (⟨count, count + 1⟩ : Span).start ≤ (⟨count + 1, count + 1 + 1⟩ : Span).stop := by
    change count ≤ count + 1 + 1
    omega
  rw [classifyNext, nothing]
  dsimp only
  rw [step_cons here]
  simp only [bind_some]
  cases isOperator <;>
    simp [peek_cons next, consumed, Span.untilSpan_bytes order, Span.till, Spanned.bytes]

theorem classifyNext_run (more : ℕ) {fuel : ℕ} (enough : 2 * more < fuel)
    (here : source.drop count = chr :: (List.replicate more chr ++ rest)) (other : rest.head? ≠ some chr) :
    classifyNext fuel (behind source escape quotes count none) =
      some (some (.token (Spanned.bytes source
        (if more = 0 then ⟨single, ⟨count, count + 1⟩⟩ else ⟨both, ⟨count, count + 2⟩⟩))),
        behind source escape quotes (count + 1 + more) none) := by
  induction more generalizing count fuel with
  | zero =>
    obtain ⟨fuel, rfl⟩ := Nat.exists_eq_add_of_lt enough
    rw [if_pos rfl, Nat.mul_zero, Nat.zero_add]
    exact classifyNext_single isOperator fuel here other
  | succ more ih =>
    obtain ⟨fuel, rfl⟩ : ∃ rest, fuel = rest + 2 := ⟨fuel - 2, by omega⟩
    rw [replicate_succ, cons_append] at here
    have inner := ih (by omega : 2 * more < fuel) (drop_succ here)
    have consumed : nextToken (fuel + 1) (behind source escape quotes (count + 1) none) =
        some (some (Spanned.bytes source
          (if more = 0 then ⟨single, ⟨count + 1, count + 1 + 1⟩⟩ else ⟨both, ⟨count + 1, count + 1 + 2⟩⟩)),
          behind source escape quotes (count + 1 + 1 + more) none) := by
      rw [nextToken, inner]
      rfl
    rw [if_neg (Nat.succ_ne_zero more), Nat.add_comm more 1, ← Nat.add_assoc (count + 1)]
    exact classifyNext_double isOperator (fuel + 1) here consumed

end

theorem nextToken_one (escape : EscapeChar) (quotes : Bool) (fuel : ℕ) (d : Char) :
    ∃ l, nextToken (fuel + 4) (new [d] escape quotes) =
      some (some ⟨Lexer.oneToken escape quotes d, ⟨0, d.utf8Size⟩⟩, l) := by
  have here : [d].drop 0 = d :: [] := rfl
  have next := drop_succ here
  have nothing : (behind [d] escape quotes 0 none).queued = none := rfl
  have size : bytesAt [d] 1 = d.utf8Size := by simp [bytesAt]
  have slice : Str.byteSlice [d] 0 d.utf8Size = some [d] := by
    have whole : Str.byteSlice [d] (bytesAt [d] 0) (bytesAt [d] (0 + 1)) = some [d] := byteSlice_bytesAt 0 1
    rwa [Nat.zero_add, size] at whole
  have sliced : (Span.bytes [d] ⟨0, 1⟩).byteSlice [d] = some [d] := by
    unfold Span.byteSlice Span.bytes
    rw [size]
    exact slice
  have span : (Span.bytes [d] ⟨0, 1⟩) = ⟨0, d.utf8Size⟩ := by
    unfold Span.bytes
    rw [size]
    rfl
  have spaces : whitespaceSpan ([d].length + 1) (Span.bytes [d] ⟨0, 1⟩) (behind [d] escape quotes 1 none) =
      some (Span.bytes [d] ⟨0, 1⟩, behind [d] escape quotes 1 none) :=
    whitespaceSpan_eq 2 0 (Nat.zero_le 1) (Nat.zero_lt_succ 1)
  have last : literalSpan (fuel + 2 + 1) (Span.bytes [d] ⟨0, 1⟩) (behind [d] escape quotes 1 none) =
      some (Span.bytes [d] ⟨0, 1⟩, behind [d] escape quotes 1 none) := by
    rw [literalSpan, classifyNext_end (fuel + 1) next]
    rfl
  rw [new_eq, nextToken, classifyNext, nothing]
  dsimp only
  rw [step_cons here]
  simp only [bind_some, Nat.zero_add, peek_end next, parseQuotesAsLiterals_behind, escapeChar_behind,
    source_behind, step_end next, sliced, spaces, map_some]
  unfold Lexer.oneToken
  rw [← span]
  cases Lexer.single quotes d with
  | some token => split_ifs <;> exact ⟨_, rfl⟩
  | none =>
    split_ifs
    · exact ⟨_, rfl⟩
    · exact ⟨_, rfl⟩
    · exact ⟨_, rfl⟩
    · exact ⟨_, rfl⟩
    · exact ⟨_, rfl⟩
    · simp only [bind_some, last, source_behind, sliced]
      exact ⟨_, rfl⟩

@[simp] theorem rest_lexerBehind : (lexerBehind source escape quotes count).rest = source.drop count := rfl

@[simp] theorem pos_lexerBehind : (lexerBehind source escape quotes count).pos = count := rfl

@[simp] theorem escapeChar_lexerBehind : (lexerBehind source escape quotes count).escapeChar = escape := rfl

@[simp] theorem quotes_lexerBehind : (lexerBehind source escape quotes count).parseQuotesAsLiterals = quotes := rfl

theorem classifyNext_lexerBehind_operator (isOperator : IsOperator chr single both)
    (here : source.drop count = chr :: rest) :
    (lexerBehind source escape quotes count).classifyNext =
      if rest.head? = some chr then
        some (.token ⟨both, ⟨count, count + 2⟩⟩,
          lexerBehind source escape quotes (count + ((chr :: rest).takeWhile fun d => d = chr).length))
      else some (.token ⟨single, ⟨count, count + 1⟩⟩, lexerBehind source escape quotes (count + 1)) := by
  unfold Lexer.classifyNext
  rw [rest_lexerBehind, here]
  cases isOperator <;> split_ifs with doubled <;> simp [doubled, advance_lexerBehind]

theorem shifted_one {token : Token} (here : source.drop count = chr :: rest) :
    shifted (bytesAt source count) (some ⟨token, ⟨0, chr.utf8Size⟩⟩) =
      some (some (Spanned.bytes source ⟨token, ⟨count, count + 1⟩⟩)) := by
  unfold shifted Span.new Spanned.bytes Span.bytes
  dsimp only
  rw [if_pos (by omega), bytesAt_succ here, Nat.zero_add, Nat.add_comm chr.utf8Size]
  rfl

theorem classifyNext_behind (escape : EscapeChar) (quotes : Bool) {fuel : ℕ} (here : source.drop count = chr :: rest)
    (enough : 2 * (source.drop count).length + 4 ≤ fuel) :
    ∃ classified more, 0 < more ∧ more ≤ (source.drop count).length ∧
      (lexerBehind source escape quotes count).classifyNext =
        some (classified, lexerBehind source escape quotes (count + more)) ∧
      classifyNext fuel (behind source escape quotes count none) =
        some (some (classified.bytes source), behind source escape quotes (count + more) none) := by
  rw [here, length_cons] at enough
  rw [here, length_cons]
  by_cases operator : ∃ single both, IsOperator chr single both
  · obtain ⟨single, both, isOperator⟩ := operator
    rw [classifyNext_lexerBehind_operator isOperator here]
    set run := rest.takeWhile fun d => d = chr with isRun
    have replicated : run = List.replicate run.length chr :=
      eq_replicate_of_mem fun d member => by simpa using mem_takeWhile_imp member
    have bound : run.length ≤ rest.length := (takeWhile_sublist _).length_le
    have parts : rest = List.replicate run.length chr ++ rest.dropWhile fun d => d = chr := by
      rw [← replicated, isRun, takeWhile_append_dropWhile]
    have other : (rest.dropWhile fun d => d = chr).head? ≠ some chr := by
      intro same
      have := List.head?_dropWhile_not (fun d => decide (d = chr)) rest
      rw [same] at this
      simp at this
    have ran : classifyNext fuel (behind source escape quotes count none) = _ :=
      classifyNext_run isOperator run.length (by omega : 2 * run.length < fuel)
        (here.trans (congrArg (chr :: ·) parts)) other
    refine ⟨.token (if run.length = 0 then ⟨single, ⟨count, count + 1⟩⟩ else ⟨both, ⟨count, count + 2⟩⟩), 1 + run.length,
      by omega, by omega, ?_, by rw [← Nat.add_assoc]; exact ran⟩
    split_ifs with doubled alone alone
    · rw [isRun, length_eq_zero_iff, takeWhile_eq_nil_iff] at alone
      cases rest with
      | nil => cases doubled
      | cons d rest => exact absurd (by simpa using doubled) (alone (Nat.zero_lt_succ _))
    · rw [takeWhile_cons_of_pos (by simp), length_cons, ← isRun, Nat.add_comm 1]
    · rw [alone]
    · rw [isRun, length_eq_zero_iff] at alone
      cases rest with
      | nil => exact absurd rfl alone
      | cons d rest =>
        have differs : d ≠ chr := by simpa using doubled
        exact absurd (takeWhile_cons_of_neg (by simpa using differs)) alone
  · have notPipe : chr ≠ '|' := by
      rintro rfl
      exact operator ⟨_, _, .pipe⟩
    have notAmpersand : chr ≠ '&' := by
      rintro rfl
      exact operator ⟨_, _, .ampersand⟩
    have next := drop_succ here
    have nothing : (behind source escape quotes count none).queued = none := rfl
    obtain ⟨less, rfl⟩ : ∃ less, fuel = less + 5 := ⟨fuel - 5, by omega⟩
    rw [classifyNext, nothing]
    dsimp only
    rw [step_cons here]
    unfold Lexer.classifyNext
    rw [rest_lexerBehind, here]
    simp only [bind_some, notPipe, notAmpersand, if_false, parseQuotesAsLiterals_behind, escapeChar_behind,
      quotes_lexerBehind, escapeChar_lexerBehind, pos_lexerBehind, source_behind, pos_behind, advance_lexerBehind]
    cases Lexer.single quotes chr with
    | some token => exact ⟨_, 1, Nat.one_pos, by omega, rfl, rfl⟩
    | none =>
      dsimp only
      split_ifs with isEscape isBacktick isWhite
      · cases rest with
        | nil =>
          rw [step_end next]
          simp only [isEscape, if_true, bind_some, byteSlice_cons here, map_some]
          exact ⟨_, 1, Nat.one_pos, by omega, rfl, rfl⟩
        | cons d rest =>
          obtain ⟨inner, one⟩ := nextToken_one escape quotes less d
          rw [step_cons next]
          simp only [isEscape, if_true, bind_some, byteSlice_cons here, byteSlice_cons next, map_some, one,
            shifted_one next]
          exact ⟨_, 2, Nat.two_pos, by rw [length_cons]; omega, rfl, rfl⟩
      · exact ⟨_, 1, Nat.one_pos, by omega, rfl, rfl⟩
      · have fits : Lexer.whitespaceLength rest ≤ rest.length := (takeWhile_sublist _).length_le
        have read : whitespaceSpan (source.length + 1) ((⟨count, count + 1⟩ : Span).bytes source)
            (behind source escape quotes (count + 1) none) =
              some ((⟨count, count + 1 + Lexer.whitespaceLength rest⟩ : Span).bytes source,
                behind source escape quotes (count + 1 + Lexer.whitespaceLength rest) none) := by
          rw [← next]
          exact whitespaceSpan_eq _ _ (Nat.le_succ count) (by rw [length_drop]; omega)
        rw [read, bind_some, Nat.add_assoc, byteSlice_span, here]
        exact ⟨_, 1 + Lexer.whitespaceLength rest, by omega, by omega, rfl, rfl⟩
      · exact ⟨_, 1, Nat.one_pos, by omega, rfl, rfl⟩

/-! The whole list of tokens. -/

variable (source escape quotes) in
def pending (count : ℕ) : List Classified :=
  Lexer.classified (source.drop count).length (lexerBehind source escape quotes count)

theorem classifyNext_nil (ends : source.drop count = []) : (lexerBehind source escape quotes count).classifyNext = none := by
  unfold Lexer.classifyNext
  rw [rest_lexerBehind, ends]

theorem classified_eq {fuel fuel' : ℕ} (enough : (source.drop count).length ≤ fuel)
    (enough' : (source.drop count).length ≤ fuel') :
    Lexer.classified fuel (lexerBehind source escape quotes count) =
      Lexer.classified fuel' (lexerBehind source escape quotes count) := by
  induction fuel generalizing count fuel' with
  | zero =>
    have ends : source.drop count = [] := List.length_eq_zero_iff.mp (by omega)
    cases fuel' with
    | zero => rfl
    | succ fuel' => rw [Lexer.classified, Lexer.classified, classifyNext_nil ends]
  | succ fuel ih =>
    cases here : source.drop count with
    | nil =>
      cases fuel' with
      | zero => rw [Lexer.classified, Lexer.classified, classifyNext_nil here]
      | succ fuel' => rw [Lexer.classified, Lexer.classified, classifyNext_nil here]
    | cons chr rest =>
      obtain ⟨classified, more, positive, bound, step, -⟩ :=
        classifyNext_behind escape quotes here (Nat.le_refl _)
      cases fuel' with
      | zero =>
        rw [here] at enough'
        cases enough'
      | succ fuel' =>
        have left : (source.drop (count + more)).length + more = (source.drop count).length := by
          rw [length_drop, length_drop] at *
          omega
        rw [Lexer.classified, Lexer.classified, step]
        exact congrArg (classified :: ·) (ih (by omega) (by omega))

theorem pending_end (ends : source.drop count = []) : pending source escape quotes count = [] := by
  unfold pending
  rw [ends]
  rfl

theorem pending_step {classified : Classified} {more : ℕ} (positive : 0 < more)
    (bound : more ≤ (source.drop count).length)
    (step : (lexerBehind source escape quotes count).classifyNext =
      some (classified, lexerBehind source escape quotes (count + more))) :
    pending source escape quotes count = classified :: pending source escape quotes (count + more) := by
  have left : (source.drop (count + more)).length + more = (source.drop count).length := by
    rw [length_drop, length_drop] at *
    omega
  unfold pending
  obtain ⟨fuel, isFuel⟩ : ∃ fuel, (source.drop count).length = fuel + 1 := ⟨(source.drop count).length - 1, by omega⟩
  rw [isFuel, Lexer.classified, step]
  dsimp only
  rw [classified_eq (by omega) (Nat.le_refl _)]

def NotRaw (classified : Classified) : Prop := ∀ chr, classified ≠ .raw chr

theorem classifyNext_raw {raw : Spanned Char} {more : ℕ} (here : source.drop count = chr :: rest)
    (step : (lexerBehind source escape quotes count).classifyNext =
      some (.raw raw, lexerBehind source escape quotes (count + more))) :
    raw = ⟨chr, ⟨count, count + 1⟩⟩ ∧ more = 1 := by
  unfold Lexer.classifyNext at step
  rw [rest_lexerBehind, here] at step
  simp only [quotes_lexerBehind, escapeChar_lexerBehind, pos_lexerBehind, advance_lexerBehind] at step
  have moved : ∀ n, lexerBehind source escape quotes (count + 1) = lexerBehind source escape quotes (count + n) → n = 1 := by
    intro n same
    have := congrArg Lexer.pos same
    simp only [pos_lexerBehind] at this
    omega
  cases found : Lexer.single quotes chr with
  | some token =>
    rw [found] at step
    dsimp only at step
    split_ifs at step <;> cases step
  | none =>
    rw [found] at step
    dsimp only at step
    split_ifs at step
    all_goals try cases step
    simp only [Option.some.injEq, Prod.mk.injEq, Classified.raw.injEq] at step
    exact ⟨step.1.symm, moved _ step.2⟩

theorem yields_raw_end {c : Char} {span : Span} {tokens : List Classified} (other : ∀ d ∈ tokens.head?, NotRaw d) :
    Lexer.yields (.raw ⟨c, span⟩ :: tokens) = ⟨.literal [c], span⟩ :: Lexer.yields tokens := by
  cases tokens with
  | nil => rfl
  | cons d tokens =>
    cases d with
    | token t => rfl
    | raw d => exact absurd rfl (other _ rfl d)
    | escaped e next => rfl

theorem yields_raw_raw {c d : Spanned Char} {tokens : List Classified} {value : Str} {span : Span}
    {more : List (Spanned Token)} (yielded : Lexer.yields (.raw d :: tokens) = ⟨.literal value, span⟩ :: more) :
    Lexer.yields (.raw c :: .raw d :: tokens) = ⟨.literal (c.item :: value), c.span.till span⟩ :: more := by
  rw [Lexer.yields.eq_def]
  dsimp only
  rw [yielded]

theorem literalSpan_eq (escape : EscapeChar) (quotes : Bool) {fuel start : ℕ} (order : start ≤ count) (bound : count ≤ source.length)
    (enough : 2 * (source.drop count).length + 5 ≤ fuel) :
    ∃ more after queued, literalSpan fuel ((⟨start, count⟩ : Span).bytes source) (behind source escape quotes count none) =
        some ((⟨start, count + more⟩ : Span).bytes source, behind source escape quotes after queued) ∧
      count + more ≤ after ∧ after ≤ source.length ∧ (∀ q ∈ queued, NotRaw q) ∧
      ∀ c i, Lexer.yields (.raw ⟨c, ⟨i, count⟩⟩ :: pending source escape quotes count) =
        ⟨.literal (c :: (source.drop count).take more), ⟨i, count + more⟩⟩ ::
          Lexer.yields (queued.toList ++ pending source escape quotes after) := by
  induction fuel generalizing count with
  | zero => omega
  | succ fuel ih =>
    cases here : source.drop count with
    | nil =>
      obtain ⟨fuel, rfl⟩ : ∃ less, fuel = less + 1 := ⟨fuel - 1, by omega⟩
      rw [literalSpan, classifyNext_end fuel here]
      refine ⟨0, count, none, rfl, Nat.le_refl _, bound, nofun, fun c i => ?_⟩
      rw [pending_end here]
      rfl
    | cons chr rest =>
      obtain ⟨classified, more, positive, within, step, stepped⟩ := classifyNext_behind escape quotes here
        (by omega : 2 * (source.drop count).length + 4 ≤ fuel)
      have isPending := pending_step positive within step
      rw [length_drop] at within
      rw [literalSpan, stepped]
      by_cases isRaw : ∃ raw, classified = .raw raw
      · obtain ⟨raw, rfl⟩ := isRaw
        obtain ⟨rfl, rfl⟩ := classifyNext_raw here step
        have next := drop_succ here
        have span : ((⟨start, count⟩ : Span).bytes source).untilSpan ((⟨count, count + 1⟩ : Span).bytes source) =
            some ((⟨start, count + 1⟩ : Span).bytes source) := Span.untilSpan_bytes (Nat.le_succ_of_le order)
        obtain ⟨more, after, queued, read, inOrder, inside, notRaw, yielded⟩ := ih
          (show start ≤ count + 1 from Nat.le_succ_of_le order) (by omega) (by rw [here, length_cons] at enough; rw [next]; omega)
        refine ⟨1 + more, after, queued, ?_, by omega, inside, notRaw, fun c i => ?_⟩
        · dsimp only [bind_some, Classified.bytes, Spanned.bytes]
          rw [span, bind_some, read, Nat.add_assoc]
        · rw [isPending, yields_raw_raw (yielded chr count), next, ← Nat.add_assoc, Nat.add_comm 1 more, take_succ_cons]
          rfl
      · have notRaw : NotRaw classified := fun raw same => isRaw ⟨raw, same⟩
        refine ⟨0, count + more, some classified, ?_, Nat.le_add_right _ _, by omega, ?_, fun c i => ?_⟩
        · cases classified with
          | token t => rfl
          | raw raw => exact absurd rfl (notRaw raw)
          | escaped e next => rfl
        · rintro q ⟨⟩
          exact notRaw
        · rw [isPending, yields_raw_end (by rintro d ⟨⟩; exact notRaw)]
          rfl

theorem nextToken_of_notRaw {fuel after : ℕ} {l : ByteLexer} {classified : Classified} (notRaw : NotRaw classified)
    (classify : classifyNext fuel l = some (some (classified.bytes source), behind source escape quotes after none)) :
    ∃ token queued, nextToken (fuel + 1) l = some (some (token.bytes source), behind source escape quotes after queued) ∧
      (∀ q ∈ queued, NotRaw q) ∧
      Lexer.yields (classified :: pending source escape quotes after) =
        token :: Lexer.yields (queued.toList ++ pending source escape quotes after) := by
  rw [nextToken, classify]
  cases classified with
  | token t => exact ⟨t, none, rfl, nofun, rfl⟩
  | raw raw => exact absurd rfl (notRaw raw)
  | escaped e next =>
    refine ⟨e, next.map .token, ?_, ?_, ?_⟩
    · cases next <;> rfl
    · intro q isQueued raw
      cases next with
      | none => cases isQueued
      | some t =>
        cases isQueued
        nofun
    · cases next <;> rfl

theorem nextToken_eq {fuel : ℕ} (enough : 2 * source.length + 6 ≤ fuel) (bound : count ≤ source.length)
    (notRaw : ∀ q ∈ queued, NotRaw q) :
    (Lexer.yields (queued.toList ++ pending source escape quotes count) = [] ∧
      ∃ l, nextToken (fuel + 1) (behind source escape quotes count queued) = some (none, l)) ∨
    ∃ token after left, nextToken (fuel + 1) (behind source escape quotes count queued) =
        some (some (token.bytes source), behind source escape quotes after left) ∧
      after ≤ source.length ∧ (∀ q ∈ left, NotRaw q) ∧
      Lexer.yields (queued.toList ++ pending source escape quotes count) =
        token :: Lexer.yields (left.toList ++ pending source escape quotes after) := by
  obtain ⟨less, rfl⟩ : ∃ less, fuel = less + 1 := ⟨fuel - 1, by omega⟩
  cases queued with
  | some classified =>
    have popped : classifyNext (less + 1) (behind source escape quotes count (some classified)) =
        some (some (classified.bytes source), behind source escape quotes count none) := classifyNext_queued less classified
    obtain ⟨token, left, next, isLeft, yielded⟩ := nextToken_of_notRaw (notRaw classified rfl) popped
    exact .inr ⟨token, count, left, next, bound, isLeft, yielded⟩
  | none =>
    cases here : source.drop count with
    | nil =>
      refine .inl ⟨by rw [pending_end here]; rfl, behind source escape quotes count none, ?_⟩
      rw [nextToken, classifyNext_end less here]
      rfl
    | cons chr rest =>
      obtain ⟨classified, more, positive, within, step, stepped⟩ := classifyNext_behind escape quotes here
        (by rw [length_drop]; omega : 2 * (source.drop count).length + 4 ≤ less + 1)
      have isPending := pending_step positive within step
      rw [length_drop] at within
      by_cases isRaw : ∃ raw, classified = .raw raw
      · obtain ⟨raw, rfl⟩ := isRaw
        obtain ⟨rfl, rfl⟩ := classifyNext_raw here step
        obtain ⟨more, after, left, read, -, inside, isLeft, yielded⟩ :=
          literalSpan_eq escape quotes (Nat.le_add_right count 1) (by omega : count + 1 ≤ source.length)
            (by rw [length_drop]; omega : 2 * (source.drop (count + 1)).length + 5 ≤ less + 1)
        refine .inr ⟨⟨.literal (chr :: (source.drop (count + 1)).take more), ⟨count, count + 1 + more⟩⟩, after, left, ?_,
          inside, isLeft, by rw [← yielded, ← isPending]; rfl⟩
        rw [nextToken, stepped]
        dsimp only [bind_some, Classified.bytes, Spanned.bytes]
        rw [read, bind_some]
        dsimp only
        rw [source_behind, Nat.add_assoc, byteSlice_span, here, drop_succ here, Nat.add_comm 1, take_succ_cons]
        rfl
      · obtain ⟨token, left, next, isLeft, yielded⟩ :=
          nextToken_of_notRaw (fun raw same => isRaw ⟨raw, same⟩) stepped
        exact .inr ⟨token, count + more, left, next, by omega, isLeft, by rw [← yielded, ← isPending]; rfl⟩

theorem collect_eq {budget fuel : ℕ} (enough : 2 * source.length + 7 ≤ budget) (bound : count ≤ source.length)
    (notRaw : ∀ q ∈ queued, NotRaw q)
    (rounds : (Lexer.yields (queued.toList ++ pending source escape quotes count)).length < fuel) :
    collect budget fuel (behind source escape quotes count queued) =
      some ((Lexer.yields (queued.toList ++ pending source escape quotes count)).map (Spanned.bytes source)) := by
  obtain ⟨less, rfl⟩ : ∃ less, budget = less + 1 := ⟨budget - 1, by omega⟩
  induction fuel generalizing count queued with
  | zero => cases rounds
  | succ fuel ih =>
    rw [collect]
    rcases nextToken_eq (by omega : 2 * source.length + 6 ≤ less) bound notRaw with
      ⟨ends, l, next⟩ | ⟨token, after, left, next, inside, isLeft, yielded⟩
    · rw [next, ends]
      rfl
    · rw [yielded, length_cons] at rounds
      rw [next, bind_some]
      dsimp only
      rw [ih inside isLeft (by omega), yielded]
      rfl

theorem length_yields_le (classified : List Classified) : (Lexer.yields classified).length ≤ 2 * classified.length := by
  induction classified with
  | nil => simp [Lexer.yields]
  | cons c rest ih =>
    cases c with
    | token t =>
      simp only [Lexer.yields, length_cons]
      omega
    | escaped e next =>
      cases next <;> simp only [Lexer.yields, length_cons, length_append, Option.toList] <;> simp <;> omega
    | raw c =>
      rw [Lexer.yields.eq_def]
      dsimp only
      split
      · rename_i yielded
        rw [yielded] at ih
        simp only [length_cons] at *
        omega
      · simp only [length_cons]
        omega

theorem length_classified_le (fuel : ℕ) (l : Lexer) : (Lexer.classified fuel l).length ≤ fuel := by
  induction fuel generalizing l with
  | zero => exact Nat.le_refl 0
  | succ fuel ih =>
    rw [Lexer.classified]
    split
    · exact Nat.zero_le _
    · exact Nat.succ_le_succ (ih _)

theorem tokens_eq (source : Str) (escape : EscapeChar) (quotes : Bool) :
    tokens source escape quotes = some ((Lexer.tokens (Lexer.new source escape quotes)).map (Spanned.bytes source)) := by
  have bound : (Lexer.yields ((none : Option Classified).toList ++ pending source escape quotes 0)).length <
      2 * source.length + 2 := by
    have few := length_yields_le (pending source escape quotes 0)
    have fewer := length_classified_le (source.drop 0).length (lexerBehind source escape quotes 0)
    rw [drop_zero] at fewer
    unfold pending at *
    simp only [toList_none, nil_append, drop_zero] at *
    omega
  refine collect_eq (by omega) (Nat.zero_le _) ?_ bound
  rintro q ⟨⟩

end Position

end ByteLexer

/-! Where the tokens tile the source. -/

/-- Each token starts where the one before it ends, the last ends with the source, and each is the text of its span. -/
def Tiles (source : Str) : ℕ → List (Spanned Token) → Prop
  | pos, [] => pos = source.byteLen
  | pos, t :: tokens => t.span.start = pos ∧ t.span.byteSlice source = some t.item.asStr ∧ Tiles source t.span.stop tokens

def isOperatorChar (c : Char) : Bool := c = '|' || c = '&'

/-- Whether an unescaped pipe or ampersand stands before two more of it. -/
def tripled (escape : EscapeChar) : Str → Bool
  | [] => false
  | [_] => false
  | c :: d :: rest =>
    if escape.isChar c then tripled escape rest
    else (isOperatorChar c && d = c && rest.head? = some c) || tripled escape (d :: rest)

section Tripled

variable {escape : EscapeChar} {c d : Char} {rest : Str}

theorem isChar_operator (isOperator : isOperatorChar c = true) : escape.isChar c = false := by
  simp only [isOperatorChar, Bool.or_eq_true, decide_eq_true_eq] at isOperator
  rcases isOperator with rfl | rfl <;> cases escape <;> decide

theorem tripled_cons (plain : escape.isChar c = false) (other : isOperatorChar c = false ∨ rest.head? ≠ some c) :
    tripled escape (c :: rest) = tripled escape rest := by
  cases rest with
  | nil => rfl
  | cons d rest =>
    rw [tripled, plain]
    rcases other with other | other
    · simp [other]
    · have differs : d ≠ c := by simpa using other
      simp [differs]

theorem tripled_escape (isEscape : escape.isChar c = true) : tripled escape (c :: d :: rest) = tripled escape rest := by
  rw [tripled, if_pos isEscape]

theorem tripled_run (isOperator : isOperatorChar c = true) : tripled escape (c :: c :: c :: rest) = true := by
  simp [tripled, isChar_operator isOperator, isOperator]

theorem isChar_whitespace (escape : EscapeChar) (white : Str.isWhitespace c = true) : escape.isChar c = false ∧ isOperatorChar c = false := by
  have none : ∀ d, Str.isWhitespace d = false → c ≠ d := by
    rintro d dark rfl
    rw [white] at dark
    cases dark
  have pipe := none '|' (by decide)
  have ampersand := none '&' (by decide)
  have backslash := none '\\' (by decide)
  have backtick := none '`' (by decide)
  refine ⟨?_, by simp [isOperatorChar, pipe, ampersand]⟩
  cases escape <;> simp [EscapeChar.isChar, EscapeChar.asChar, backslash, backtick]

theorem tripled_whitespace (rest : Str) :
    tripled escape (rest.drop (Lexer.whitespaceLength rest)) = tripled escape rest := by
  unfold Lexer.whitespaceLength
  induction rest with
  | nil => rfl
  | cons c rest ih =>
    rw [takeWhile_cons]
    split_ifs with white
    · rw [Bool.and_eq_true] at white
      obtain ⟨plain, other⟩ := isChar_whitespace escape white.1
      rw [tripled_cons plain (.inl other), length_cons, drop_succ_cons, ih]
    · rfl

end Tripled

theorem Lexer.asStr_single {quotes : Bool} {c : Char} {token : Token} (isSingle : single quotes c = some token) :
    token.asStr = [c] := by
  unfold single at isSingle
  split at isSingle <;> try split at isSingle
  all_goals first
    | cases isSingle
      rfl
    | cases isSingle

theorem Lexer.isChar_single (escape : EscapeChar) {quotes : Bool} {c : Char} {token : Token}
    (isSingle : single quotes c = some token) : escape.isChar c = false := by
  cases isEscape : escape.isChar c with
  | false => rfl
  | true =>
    obtain rfl : c = escape.asChar := of_decide_eq_true isEscape
    cases escape <;> cases isSingle

theorem Lexer.asStr_oneToken (escape : EscapeChar) (quotes : Bool) (c : Char) :
    (oneToken escape quotes c).asStr = [c] := by
  unfold oneToken
  cases isSingle : single quotes c with
  | some token =>
    dsimp only
    split_ifs with pipe ampersand
    · rw [pipe]
      rfl
    · rw [ampersand]
      rfl
    · exact asStr_single isSingle
  | none =>
    split_ifs with pipe ampersand isEscape isBacktick
    · rw [pipe]
      rfl
    · rw [ampersand]
      rfl
    · rfl
    · rw [isBacktick]
      rfl
    · rfl
    · rfl

namespace ByteLexer

section Tiling

variable {source : Str} {escape : EscapeChar} {quotes : Bool} {count : ℕ} {chr : Char} {rest : Str}

inductive Reads (escape : EscapeChar) (count : ℕ) (chr : Char) (rest : Str) : Classified → ℕ → Prop
  | raw (same : tripled escape (chr :: rest) = tripled escape rest) :
    Reads escape count chr rest (.raw ⟨chr, ⟨count, count + 1⟩⟩) 1
  | token (t : Token) (more : ℕ) (text : t.asStr = (chr :: rest).take more)
    (same : tripled escape (chr :: rest) = tripled escape ((chr :: rest).drop more)) :
    Reads escape count chr rest (.token ⟨t, ⟨count, count + more⟩⟩) more
  | lone (alone : rest = []) :
    Reads escape count chr rest (.escaped ⟨.escapeChar [chr], ⟨count, count + 1⟩⟩ none) 1
  | escaped (d : Char) (t : Token) (following : Str) (split : rest = d :: following) (text : t.asStr = [d])
    (same : tripled escape (chr :: rest) = tripled escape following) :
    Reads escape count chr rest
      (.escaped ⟨.escapeChar [chr], ⟨count, count + 1⟩⟩ (some ⟨t, ⟨count + 1, count + 2⟩⟩)) 2
  | run (t : Token) (more : ℕ) (long : 2 < more) (text : t.asStr = (chr :: rest).take 2)
    (triple : tripled escape (chr :: rest) = true) :
    Reads escape count chr rest (.token ⟨t, ⟨count, count + 2⟩⟩) more

theorem IsOperator.isOperatorChar {single both : Token} (isOperator : IsOperator chr single both) :
    isOperatorChar chr = true ∧ single.asStr = [chr] ∧ both.asStr = [chr, chr] := by
  cases isOperator <;> decide

theorem classifyNext_reads {classified : Classified} {more : ℕ} (here : source.drop count = chr :: rest)
    (step : (lexerBehind source escape quotes count).classifyNext =
      some (classified, lexerBehind source escape quotes (count + more))) :
    Reads escape count chr rest classified more := by
  have moved : ∀ n, lexerBehind source escape quotes (count + n) = lexerBehind source escape quotes (count + more) →
      n = more := by
    intro n same
    have := congrArg Lexer.pos same
    simp only [pos_lexerBehind] at this
    omega
  by_cases operator : ∃ single both, IsOperator chr single both
  · obtain ⟨single, both, isOperator⟩ := operator
    obtain ⟨isChar, one, two⟩ := isOperator.isOperatorChar
    have plain : escape.isChar chr = false := isChar_operator isChar
    rw [classifyNext_lexerBehind_operator isOperator here] at step
    split_ifs at step with doubled
    · cases rest with
      | nil => cases doubled
      | cons d following =>
        obtain rfl : d = chr := by simpa using doubled
        simp only [Option.some.injEq, Prod.mk.injEq] at step
        obtain ⟨rfl, after⟩ := step
        have isMore := moved _ after
        rw [takeWhile_cons_of_pos (by simp), takeWhile_cons_of_pos (by simp)] at isMore
        by_cases triple : following.head? = some d
        · cases following with
          | nil => cases triple
          | cons e following =>
            obtain rfl : e = d := by simpa using triple
            rw [takeWhile_cons_of_pos (by simp)] at isMore
            simp only [length_cons] at isMore
            exact .run both more (by omega) two (tripled_run isChar)
        · have ends : following.takeWhile (fun e => e = d) = [] := by
            cases following with
            | nil => rfl
            | cons e following => exact takeWhile_cons_of_neg (by simpa using triple)
          rw [ends] at isMore
          obtain rfl : 2 = more := isMore
          refine .token both 2 two ?_
          rw [tripled, plain, drop_succ_cons, drop_succ_cons, drop_zero, tripled_cons plain (.inr triple)]
          simp [triple]
    · simp only [Option.some.injEq, Prod.mk.injEq] at step
      obtain ⟨rfl, after⟩ := step
      obtain rfl := moved _ after
      exact .token single 1 one (tripled_cons plain (.inr doubled))
  · have notPipe : chr ≠ '|' := by
      rintro rfl
      exact operator ⟨_, _, .pipe⟩
    have notAmpersand : chr ≠ '&' := by
      rintro rfl
      exact operator ⟨_, _, .ampersand⟩
    have other : isOperatorChar chr = false := by simp [isOperatorChar, notPipe, notAmpersand]
    unfold Lexer.classifyNext at step
    rw [rest_lexerBehind, here] at step
    simp only [notPipe, notAmpersand, if_false, quotes_lexerBehind, escapeChar_lexerBehind, pos_lexerBehind,
      advance_lexerBehind] at step
    cases isSingle : Lexer.single quotes chr with
    | some t =>
      have plain := Lexer.isChar_single escape isSingle
      rw [isSingle] at step
      simp only [Option.some.injEq, Prod.mk.injEq] at step
      obtain ⟨rfl, after⟩ := step
      obtain rfl := moved _ after
      exact .token t 1 (Lexer.asStr_single isSingle) (tripled_cons plain (.inl other))
    | none =>
      rw [isSingle] at step
      dsimp only at step
      split_ifs at step with isEscape isBacktick isWhite
      · simp only [Option.some.injEq, Prod.mk.injEq] at step
        obtain ⟨rfl, after⟩ := step
        have isMore := moved _ after
        cases rest with
        | nil =>
          obtain rfl : 1 = more := isMore
          exact .lone rfl
        | cons d following =>
          obtain rfl : 2 = more := isMore
          exact .escaped d _ following rfl (Lexer.asStr_oneToken escape quotes d) (tripled_escape isEscape)
      · simp only [Option.some.injEq, Prod.mk.injEq] at step
        obtain ⟨rfl, after⟩ := step
        obtain rfl := moved _ after
        exact .token .backtick 1 (by rw [isBacktick]; rfl) (tripled_cons (by simpa using isEscape) (.inl other))
      · simp only [Option.some.injEq, Prod.mk.injEq] at step
        obtain ⟨rfl, after⟩ := step
        obtain rfl := moved _ after
        refine .token _ _ rfl ?_
        rw [tripled_cons (isChar_whitespace escape isWhite).1 (.inl other), Nat.add_comm, drop_succ_cons,
          tripled_whitespace]
      · simp only [Option.some.injEq, Prod.mk.injEq] at step
        obtain ⟨rfl, after⟩ := step
        obtain rfl := moved _ after
        exact .raw (tripled_cons (by simpa using isEscape) (.inl other))

theorem yields_raw_start (c : Spanned Char) (tokens : List Classified) : ∃ value stop more,
    Lexer.yields (.raw c :: tokens) = ⟨.literal value, ⟨c.span.start, stop⟩⟩ :: more := by
  rw [Lexer.yields.eq_def]
  dsimp only
  split
  · exact ⟨_, _, _, rfl⟩
  · exact ⟨_, c.span.stop, _, rfl⟩

theorem start_of_pending (source : Str) (escape : EscapeChar) (quotes : Bool) (count : ℕ) :
    ∀ t ∈ (Lexer.yields (pending source escape quotes count)).head?, t.span.start = count := by
  cases here : source.drop count with
  | nil =>
    rw [pending_end here]
    rintro t ⟨⟩
  | cons chr rest =>
    obtain ⟨classified, more, positive, within, step, -⟩ := classifyNext_behind escape quotes here (Nat.le_refl _)
    rw [pending_step positive within step]
    cases classifyNext_reads here step with
    | raw same =>
      obtain ⟨value, stop, tokens, yielded⟩ :=
        yields_raw_start ⟨chr, ⟨count, count + 1⟩⟩ (pending source escape quotes (count + 1))
      rw [yielded]
      rintro t ⟨⟩
      rfl
    | token t more text same =>
      rintro t ⟨⟩
      rfl
    | lone alone =>
      rintro t ⟨⟩
      rfl
    | escaped d t following split text same =>
      rintro t ⟨⟩
      rfl
    | run t more long text triple =>
      rintro t ⟨⟩
      rfl

theorem byteSlice_cons_iff {c : Char} {value : Str} {stop : ℕ} (here : source.drop count = c :: rest) :
    source.byteSlice (bytesAt source count) stop = some (c :: value) ↔
      source.byteSlice (bytesAt source (count + 1)) stop = some value := by
  have parts : source = source.take count ++ c :: rest := by rw [← here, take_append_drop]
  have next : source.take (count + 1) = source.take count ++ [c] := by
    rw [take_add, here]
    rfl
  rw [Str.byteSlice_eq_some_iff, Str.byteSlice_eq_some_iff]
  constructor
  · rintro ⟨before, after, split, atStart, len⟩
    have same : before = source.take count := by
      have first := Str.splitBytes_eq_some_iff.mpr ⟨(append_assoc before (c :: value) after).symm.trans split.symm |>.symm, atStart⟩
      rw [splitBytes_bytesAt] at first
      exact (Prod.mk.inj (Option.some.inj first)).1.symm
    refine ⟨source.take (count + 1), after, ?_, rfl, ?_⟩
    · exact split.trans (by rw [next, same]; simp)
    · rw [bytesAt_succ here, ← len, Str.byteLen_cons, Nat.add_assoc]
  · rintro ⟨before, after, split, atStart, len⟩
    have same : before = source.take (count + 1) := by
      have first := Str.splitBytes_eq_some_iff.mpr ⟨(append_assoc before value after).symm.trans split.symm |>.symm, atStart⟩
      rw [splitBytes_bytesAt] at first
      exact (Prod.mk.inj (Option.some.inj first)).1.symm
    refine ⟨source.take count, after, ?_, rfl, ?_⟩
    · exact split.trans (by rw [same, next]; simp)
    · rw [← len, bytesAt_succ here, Str.byteLen_cons, Nat.add_assoc]

theorem tiles_raw (here : source.drop count = chr :: rest) :
    Tiles source (bytesAt source count)
        ((Lexer.yields (.raw ⟨chr, ⟨count, count + 1⟩⟩ :: pending source escape quotes (count + 1))).map
          (Spanned.bytes source)) ↔
      Tiles source (bytesAt source (count + 1))
        ((Lexer.yields (pending source escape quotes (count + 1))).map (Spanned.bytes source)) := by
  have one := byteSlice_cons here
  cases left : pending source escape quotes (count + 1) with
  | nil =>
    simp only [Lexer.yields, map_cons, map_nil, Tiles, Spanned.bytes, Span.bytes, Token.asStr]
    exact ⟨fun tiles => tiles.2.2, fun ends => ⟨trivial, one, ends⟩⟩
  | cons d tokens =>
    by_cases isRaw : ∃ raw, d = .raw raw
    · obtain ⟨raw, rfl⟩ := isRaw
      obtain ⟨value, stop, more, yielded⟩ := yields_raw_start raw tokens
      have starts : raw.span.start = count + 1 := by
        have start := start_of_pending source escape quotes (count + 1)
        rw [left, yielded] at start
        exact start _ rfl
      rw [yields_raw_raw yielded, yielded]
      simp only [map_cons, Tiles, Spanned.bytes, Span.bytes, Span.till, Token.asStr, starts, true_and,
        Span.byteSlice, byteSlice_cons_iff here]
    · have other : ∀ e ∈ (d :: tokens).head?, NotRaw e := by
        rintro e ⟨⟩ raw same
        exact isRaw ⟨raw, same⟩
      rw [yields_raw_end other]
      simp only [map_cons, Tiles, Spanned.bytes, Token.asStr]
      exact ⟨fun tiles => tiles.2.2, fun rest => ⟨rfl, one, rest⟩⟩

theorem not_tiles_before {start : ℕ} (order : start < count) (bound : count ≤ source.length) :
    ¬ Tiles source (bytesAt source start)
      ((Lexer.yields (pending source escape quotes count)).map (Spanned.bytes source)) := by
  have gap : bytesAt source start < bytesAt source count := bytesAt_lt order (by omega)
  have first := start_of_pending source escape quotes count
  cases left : Lexer.yields (pending source escape quotes count) with
  | nil =>
    intro atEnd
    have whole : bytesAt source count ≤ source.byteLen := by
      have mono : bytesAt source count ≤ bytesAt source source.length := bytesAt_mono bound
      rwa [bytesAt, bytesAt, take_length] at mono
    simp only [map_nil, Tiles] at atEnd
    omega
  | cons t tokens =>
    rw [left] at first
    rintro ⟨atStart, -⟩
    simp only [Spanned.bytes, Span.bytes, first t rfl] at atStart
    omega

theorem tiles_iff (bound : count ≤ source.length) :
    Tiles source (bytesAt source count)
        ((Lexer.yields (pending source escape quotes count)).map (Spanned.bytes source)) ↔
      tripled escape (source.drop count) = false := by
  induction isLeft : source.length - count using Nat.strong_induction_on generalizing count with
  | _ left ih =>
    cases here : source.drop count with
    | nil =>
      have atEnd : source.length ≤ count := List.drop_eq_nil_iff.mp here
      rw [pending_end here, bytesAt, take_of_length_le atEnd]
      exact iff_of_true rfl rfl
    | cons chr rest =>
      obtain ⟨classified, more, positive, within, step, -⟩ := classifyNext_behind escape quotes here (Nat.le_refl _)
      have reads := classifyNext_reads here step
      have next := drop_succ here
      rw [pending_step positive within step]
      rw [length_drop] at within
      have later : ∀ n, 0 < n → n ≤ more → (Tiles source (bytesAt source (count + n))
          ((Lexer.yields (pending source escape quotes (count + n))).map (Spanned.bytes source)) ↔
            tripled escape (source.drop (count + n)) = false) :=
        fun n less most => ih (source.length - (count + n)) (by omega) (by omega) rfl
      cases reads with
      | raw same => rw [tiles_raw here, later 1 Nat.one_pos (Nat.le_refl 1), next, same]
      | token t more text same =>
        have slice : ((⟨count, count + more⟩ : Span).bytes source).byteSlice source = _ := byteSlice_span count more
        rw [here, ← text] at slice
        rw [same, ← here, drop_drop, ← later more positive (Nat.le_refl more)]
        exact ⟨fun tiles => tiles.2.2, fun tiles => ⟨rfl, slice, tiles⟩⟩
      | lone alone =>
        subst alone
        have slice := byteSlice_cons here
        refine Iff.trans ⟨fun tiles => tiles.2.2, fun tiles => ⟨rfl, slice, tiles⟩⟩
          ((later 1 Nat.one_pos (Nat.le_refl 1)).trans ?_)
        rw [next]
        rfl
      | escaped d t following split text same =>
        subst split
        have slice := byteSlice_cons here
        have slice' := byteSlice_cons next
        rw [← text] at slice'
        refine Iff.trans ⟨fun tiles => tiles.2.2.2.2, fun tiles => ⟨rfl, slice, rfl, slice', tiles⟩⟩
          ((later 2 Nat.two_pos (Nat.le_refl 2)).trans ?_)
        rw [drop_succ next, same]
      | run t more long text triple =>
        rw [triple]
        refine iff_of_false ?_ nofun
        rintro ⟨-, -, tiles⟩
        exact not_tiles_before (by omega : count + 2 < count + more) (by omega) tiles

/-- The tokens tile the source and spell it, unless an unescaped operator is tripled: the lexer drops the token that it
consumes for the second character, with all that this one stands for. -/
theorem tokens_tile_iff (source : Str) (escape : EscapeChar) (quotes : Bool) :
    (∃ spanned, tokens source escape quotes = some spanned ∧ Tiles source 0 spanned) ↔ tripled escape source = false := by
  rw [tokens_eq]
  have whole : Tiles source (bytesAt source 0)
      ((Lexer.yields (pending source escape quotes 0)).map (Spanned.bytes source)) ↔ _ :=
    tiles_iff (Nat.zero_le source.length)
  rw [drop_zero] at whole
  rw [← whole]
  constructor
  · rintro ⟨spanned, lexed, tiles⟩
    cases lexed
    exact tiles
  · exact fun tiles => ⟨_, rfl, tiles⟩

theorem tripled_pipe_loses : ¬ ∃ spanned, tokens ['a', '|', '|', '|', 'b'] .backslash false = some spanned ∧
    Tiles ['a', '|', '|', '|', 'b'] 0 spanned := by
  rintro ⟨spanned, lexed, tiles⟩
  have isLexed : tokens ['a', '|', '|', '|', 'b'] .backslash false =
      some [⟨.literal ['a'], ⟨0, 1⟩⟩, ⟨.logicalOr, ⟨1, 3⟩⟩, ⟨.literal ['b'], ⟨4, 5⟩⟩] := by decide +kernel
  rw [isLexed] at lexed
  cases lexed
  exact absurd tiles.2.2.2.2.1 (by decide)

end Tiling

end ByteLexer

end Warp.Completer
