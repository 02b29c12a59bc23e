import Warp.Completer.ScriptRun

namespace Warp.Completer

open Parser List

variable {source : Str}

theorem unwind_single (list : Option Bracket) (fuel : ℕ) (p : Parser) :
    unwind [(list, fuel)] p = parseCommandList (list.map Bracket.closing) fuel p := by
  simp [unwind]

theorem Script.Reads.alone {s : Script} (reads : s.Reads source) {list : Option Bracket} {fuel pos : ℕ} {rest : List Token}
    {r : Bool} (inTime : (s.waiting [list]).isSome) (ends : CommandEnd rest) (at' : At source pos (s.tokens ++ rest))
    (enough : 8 * (s.tokens ++ rest).length + 4 ≤ fuel)
    (stops : ∀ n pos, parseCommandList (list.map Bracket.closing) (n + 1) (reading pos rest r) = ([], reading pos rest r)) :
    ∃ commands, parseCommandList (list.map Bracket.closing) fuel (reading pos (s.tokens ++ rest) r) =
        (commands, reading (pos + width s.tokens) rest r) ∧ Shown s.commands (decomposeAll source commands) := by
  obtain ⟨lists, waits⟩ := Option.isSome_iff_exists.mp inTime
  have isList : lists = [list] := by
    obtain ⟨within, remains⟩ := s.waiting_suffix [list] lists (cons_ne_nil _ _) waits
    rcases List.suffix_cons_iff.mp within with whole | below
    · exact whole
    · exact absurd (List.suffix_nil.mp below) remains
  obtain ⟨commands, frames', isLists, -, fueled, advances, shown⟩ := reads [(list, fuel)] lists pos rest r
    (cons_ne_nil _ _) waits ends at' (by simpa using enough)
  rw [isList] at isLists
  match frames', isLists with
  | [(_, n)], rfl =>
    obtain ⟨n, rfl⟩ : ∃ k, n = k + 1 := ⟨n - 1, by have := fueled _ mem_cons_self; dsimp only at this; omega⟩
    unfold Advances at advances
    rw [unwind_single, unwind_single, stops] at advances
    exact ⟨commands, by rw [advances, append_nil], shown⟩

theorem Substitution.Reads.dollar {body : Script} (reads : body.Reads source)
    (inTime : (body.waiting [some .paren]).isSome) : (Substitution.dollar body).Reads source := by
  intro pos rest r fuel at' enough
  rw [Substitution.tokens, cons_append, cons_append, append_assoc, singleton_append] at at' enough ⊢
  obtain ⟨fuel, rfl⟩ : ∃ n, fuel = n + 1 := ⟨fuel - 1, by simp only [length_cons] at enough; omega⟩
  have enough' : 8 * (body.tokens ++ .closeParen :: rest).length + 4 ≤ fuel := by
    simp only [length_cons] at enough
    omega
  obtain ⟨commands, read, shown⟩ := reads.alone (r := r) inTime (CommandEnd.closing .paren rest) at'.tail.tail enough'
    fun n pos => parseCommandList_ends .paren
  refine ⟨commands, ?_, shown⟩
  have stop : pos + width (.dollar :: .openParen :: (body.tokens ++ [.closeParen])) = pos + 1 + 1 + width body.tokens + 1 := by
    simp [Token.asStr]
    omega
  rw [stop]
  show parseDollarSubshell (fuel + 1) _ = _
  rw [parseDollarSubshell]
  simp only [reading_next]
  erw [read]
  rfl

theorem Substitution.Reads.backticks {body : Script} (reads : body.Reads source)
    (plain : Token.backtick ∉ body.tokens) : (Substitution.backticks body).Reads source := by
  intro pos rest r fuel at' enough
  rw [Substitution.tokens, cons_append, append_assoc, singleton_append] at at' enough ⊢
  obtain ⟨fuel, rfl⟩ : ∃ n, fuel = n + 1 := ⟨fuel - 1, by simp only [length_cons] at enough; omega⟩
  have enough' : 8 * (body.tokens ++ []).length + 4 ≤ fuel := by
    simp only [length_cons, length_append, length_nil] at enough ⊢
    omega
  have inTime : (body.waiting [none]).isSome := by
    obtain ⟨inner, waits, -⟩ := body.waiting_open [none] mem_cons_self
    rw [waits]
    rfl
  have within : At source (pos + 1) (body.tokens ++ []) := by
    rw [append_nil]
    exact at'.tail.left
  obtain ⟨commands, read, shown⟩ := reads.alone (r := false) inTime (show CommandEnd [] from trivial) within enough'
    fun n pos => rfl
  refine ⟨commands, ?_, shown⟩
  have stop : pos + width (.backtick :: (body.tokens ++ [.backtick])) = pos + 1 + width body.tokens + 1 := by
    simp [Token.asStr]
    omega
  rw [stop]
  rw [append_nil] at read
  show parseBacktickedSubshell (fuel + 1) _ = _
  rw [parseBacktickedSubshell, reading_next]
  dsimp only [Token.asStr, length_singleton]
  rw [untilBacktick_reading plain]
  dsimp only
  erw [read]
  rfl

mutual

theorem Script.reads : ∀ s : Script, s.Grammatical → s.ClosesInTime → s.Reads source
  | .nil, _, _ => Script.Reads.nil
  | .blank _ rest, grammatical, inTime => (Script.reads rest grammatical inTime).blank
  | .separator _ rest, grammatical, inTime => (Script.reads rest grammatical.2 inTime).separator grammatical.1
  | .group _ body rest, grammatical, inTime =>
    (Script.reads body grammatical.1 inTime.1).group (Script.reads rest grammatical.2 inTime.2)
  | .command words rest, grammatical, inTime =>
    (Script.reads rest grammatical.2.2 inTime.2).command (Words.reads words grammatical.1 inTime.1) grammatical

theorem Words.reads : ∀ words : Words, words.Grammatical → words.ClosesInTime → words.Reads source
  | .last word, grammatical, inTime => Words.Reads.last (Word.reads word grammatical inTime) grammatical
  | .cons word _ rest, grammatical, inTime =>
    Words.Reads.cons (Word.reads word grammatical.1 inTime.1) (Words.reads rest grammatical.2 inTime.2) grammatical.1

theorem Word.reads : ∀ word : Word, word.Grammatical → word.ClosesInTime → word.Reads source
  | .last piece, grammatical, inTime => Word.Reads.last (Piece.reads piece grammatical inTime) grammatical
  | .cons piece rest, grammatical, inTime =>
    Word.Reads.cons (Piece.reads piece grammatical.1 inTime.1) (Word.reads rest grammatical.2 inTime.2) grammatical

theorem Piece.reads : ∀ piece : Piece, piece.Grammatical → piece.ClosesInTime → piece.Reads source
  | .raw _, grammatical, _ => Piece.Reads.raw grammatical
  | .escaped _ _, grammatical, _ => Piece.Reads.escaped grammatical
  | .single _, grammatical, _ => Piece.Reads.single grammatical
  | .double quoted, grammatical, inTime => Piece.Reads.double (Quoted.reads quoted grammatical inTime)
  | .substitution s, grammatical, inTime => Piece.Reads.substitution (Substitution.reads s grammatical inTime)

theorem Quoted.reads : ∀ quoted : Quoted, quoted.Grammatical → quoted.ClosesInTime → quoted.Reads source
  | .nil, _, _ => Quoted.Reads.nil
  | .raw _ rest, grammatical, inTime =>
    have ⟨notQuote, notBacktick, notEscape, nonempty, notOpen, grammatical⟩ := grammatical
    Quoted.Reads.raw notQuote notBacktick notEscape nonempty notOpen (Quoted.reads rest grammatical inTime)
  | .escaped _ _ rest, grammatical, inTime =>
    Quoted.Reads.escaped grammatical.1 grammatical.2.1 (Quoted.reads rest grammatical.2.2 inTime)
  | .substitution s rest, grammatical, inTime =>
    Quoted.Reads.substitution (Substitution.reads s grammatical.1 inTime.1) (Quoted.reads rest grammatical.2 inTime.2)

theorem Substitution.reads : ∀ s : Substitution, s.Grammatical → s.ClosesInTime → s.Reads source
  | .dollar body, grammatical, inTime => Substitution.Reads.dollar (Script.reads body grammatical inTime.2) inTime.1
  | .backticks body, grammatical, inTime =>
    Substitution.Reads.backticks (Script.reads body grammatical inTime.2) inTime.1

end

structure Script.Decomposable (s : Script) : Prop where
  closesInTime : s.ClosesInTime
  exposed : ∀ words ∈ s.commands, words.HasLiteralWord → words.Exposed

def Script.Lexes (s : Script) (escape : EscapeChar) : Prop :=
  (Lexer.new s.text escape false).tokens = spanTokens 0 s.tokens

theorem new_spanTokens (tokens : List Token) : Parser.new (spanTokens 0 tokens) = reading 0 tokens false := rfl

theorem parse_fst (p : Parser) : p.parse.1 = (parseCommandList none (fuelFor p.tokens.tokens.length) p).1 := by
  unfold parse
  generalize parseCommandList none (fuelFor p.tokens.tokens.length) p = result
  rfl

theorem new_length (tokens : List (Spanned Token)) : (Parser.new tokens).tokens.tokens.length = tokens.length := rfl

theorem decomposeCommand_fst (command : Str) (escape : EscapeChar) : (decomposeCommand command escape).1 =
    decomposeAll command (Parser.new (Lexer.new command escape false).tokens).parse.1 := rfl

def Word.plain (text : Str) : Word := .last (.raw (.literal text))

end Warp.Completer
