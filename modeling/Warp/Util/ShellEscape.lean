import Warp.Completer.Token

namespace Warp.Util

open Completer List

inductive ShellFamily
  /-- Bash, Zsh and Fish. -/
  | posix
  | powerShell
  deriving DecidableEq, Repr

namespace ShellFamily

def escapeChar : ShellFamily → EscapeChar
  | posix => .backslash
  | powerShell => .backtick

def escapePattern : ShellFamily → List Char
  | posix => [' ', '"', '$', '\'', '\\', '#', '=', '[', ']', '!', '>', '<', '|', ';', '\x7b', '\x7d', '(', ')', '*', '?', '&',
      '`', '~', '\n', '\t']
  | powerShell => [' ', '"', '$', '\'', '#', '=', '[', ']', '!', '>', '<', '|', ';', '\x7b', '\x7d', '(', ')', '*', '&', '`',
      '@', ',', '\n', '\t']

def replaceAll (family : ShellFamily) (input : Str) : Str :=
  input.flatMap fun c => if family.escapePattern.contains c then [family.escapeChar.asChar, c] else [c]

def escape (family : ShellFamily) (input : Str) : Str :=
  if input = [] then ['\'', '\''] else family.replaceAll input

def unescape (family : ShellFamily) : Str → Str
  | [] => []
  | [c] => [c]
  | c :: d :: rest => if family.escapeChar.isChar c then d :: unescape family rest else c :: unescape family (d :: rest)

/-- The characters between words. PowerShell takes every white space for one and a carriage return for a line end. -/
def isSeparator : ShellFamily → Char → Bool
  | posix, c => [' ', '\t', '\n'].contains c
  | powerShell, c => Str.isWhitespace c

/-- PowerShell takes typographic quotes for plain ones. -/
def isSingleQuote : ShellFamily → Char → Bool
  | posix, c => c = '\''
  | powerShell, c => ['\'', '\u2018', '\u2019', '\u201A', '\u201B'].contains c

def isDoubleQuote : ShellFamily → Char → Bool
  | posix, c => c = '"'
  | powerShell, c => ['"', '\u201C', '\u201D', '\u201E'].contains c

/-- The operators, comments, expansions and patterns of the family. -/
def operators : ShellFamily → List Char
  | posix => ['|', '&', ';', '<', '>', '(', ')', '\x7b', '\x7d', '$', '`', '\\', '#', '=', '!', '~', '*', '?', '[', ']']
  | powerShell => ['|', '&', ';', '<', '>', '(', ')', '\x7b', '\x7d', '$', '`', '#', '=', '!', '@', ',', '*', '[', ']']

def isMetacharacter (family : ShellFamily) (c : Char) : Bool :=
  family.isSeparator c || family.isSingleQuote c || family.isDoubleQuote c || family.operators.contains c

/-- What the last character does to the next one. -/
inductive Mode
  | plain
  | escaped
  | quoted
  deriving DecidableEq, Repr

def push (word : Option Str) (c : Char) : Option Str := some (word.getD [] ++ [c])

/-- The words of a text, where `word` is what was read of the current one. An escaped line feed is a continuation. -/
def words (family : ShellFamily) : Mode → Option Str → Str → List Str
  | .escaped, word, [] => (push word family.escapeChar.asChar).toList
  | _, word, [] => word.toList
  | .quoted, word, c :: rest =>
    if family.isSingleQuote c then words family .plain word rest else words family .quoted (push word c) rest
  | .escaped, word, c :: rest =>
    if c = '\n' then words family .plain word rest else words family .plain (push word c) rest
  | .plain, word, c :: rest =>
    if family.escapeChar.isChar c then words family .escaped word rest
    else if family.isSingleQuote c then words family .quoted (some (word.getD [])) rest
    else if family.isSeparator c then word.toList ++ words family .plain none rest
    else words family .plain (push word c) rest

def splitWords (family : ShellFamily) (text : Str) : List Str := words family .plain none text

def covered (family : ShellFamily) : Bool → Str → Bool
  | _, [] => true
  | true, _ :: rest => covered family false rest
  | false, c :: rest =>
    if family.escapeChar.isChar c then covered family true rest
    else !family.isMetacharacter c && covered family false rest

/-- The escaped form is one word, the string itself, shows the shell no metacharacter and gives the string back. -/
structure Sound (family : ShellFamily) (s : Str) : Prop where
  oneWord : family.splitWords (family.escape s) = [s]
  covered : family.covered false (family.escape s) = true
  unescapes : family.unescape (family.escape s) = s

section Replace

variable {family : ShellFamily} {c : Char} {s : Str}

theorem replaceAll_cons (c : Char) (s : Str) : family.replaceAll (c :: s) =
    (if family.escapePattern.contains c then [family.escapeChar.asChar, c] else [c]) ++ family.replaceAll s :=
  flatMap_cons

theorem isChar_asChar (escape : EscapeChar) : escape.isChar escape.asChar = true := by cases escape <;> rfl

theorem isChar_of_unmatched (unmatched : family.escapePattern.contains c = false) :
    family.escapeChar.isChar c = false := by
  by_contra isEscape
  have same : c = family.escapeChar.asChar := by simpa [EscapeChar.isChar] using isEscape
  rw [same] at unmatched
  cases family <;> exact absurd unmatched (by decide +kernel)

theorem unescape_escaped (c : Char) (rest : Str) :
    family.unescape (family.escapeChar.asChar :: c :: rest) = c :: family.unescape rest :=
  if_pos (isChar_asChar _)

theorem unescape_plain (unmatched : family.escapePattern.contains c = false) (rest : Str) :
    family.unescape (c :: rest) = c :: family.unescape rest := by
  cases rest with
  | nil => rfl
  | cons d rest => exact if_neg (by rw [isChar_of_unmatched unmatched]; exact Bool.false_ne_true)

theorem unescape_replaceAll (s : Str) : family.unescape (family.replaceAll s) = s := by
  induction s with
  | nil => rfl
  | cons c s ih =>
    rw [replaceAll_cons]
    cases matched : family.escapePattern.contains c with
    | true => rw [if_pos rfl, cons_append, singleton_append, unescape_escaped, ih]
    | false => rw [if_neg Bool.false_ne_true, singleton_append, unescape_plain matched, ih]

theorem covered_replaceAll (s : Str) :
    family.covered false (family.replaceAll s) =
      s.all fun c => family.escapePattern.contains c || !family.isMetacharacter c := by
  induction s with
  | nil => rfl
  | cons c s ih =>
    rw [replaceAll_cons, all_cons, ← ih]
    cases matched : family.escapePattern.contains c with
    | true =>
      rw [if_pos rfl, cons_append, singleton_append, covered, if_pos (isChar_asChar _), covered, Bool.true_or,
        Bool.true_and]
    | false =>
      rw [if_neg Bool.false_ne_true, singleton_append, covered,
        if_neg (by rw [isChar_of_unmatched matched]; exact Bool.false_ne_true), Bool.false_or]

def pushAll (word : Option Str) (s : Str) : Option Str := (s.filter fun c => c ≠ '\n').foldl push word

theorem words_escaped (word : Option Str) (c : Char) (rest : Str) :
    words family .plain word (family.escapeChar.asChar :: c :: rest) =
      words family .plain (if c = '\n' then word else push word c) rest := by
  rw [words, if_pos (isChar_asChar _), words]
  split_ifs <;> rfl

theorem words_plain (word : Option Str) (unmatched : family.escapePattern.contains c = false)
    (plain : family.isMetacharacter c = false) (rest : Str) :
    words family .plain word (c :: rest) = words family .plain (push word c) rest := by
  rw [words]
  simp only [isMetacharacter, Bool.or_eq_false_iff] at plain
  obtain ⟨⟨⟨notSeparator, notQuote⟩, -⟩, -⟩ := plain
  rw [if_neg (by rw [isChar_of_unmatched unmatched]; exact Bool.false_ne_true), if_neg (by rw [notQuote]; exact Bool.false_ne_true),
    if_neg (by rw [notSeparator]; exact Bool.false_ne_true)]

theorem words_replaceAll (word : Option Str)
    (escapes : ∀ c ∈ s, family.isMetacharacter c → family.escapePattern.contains c) :
    words family .plain word (family.replaceAll s) = (pushAll word s).toList := by
  induction s generalizing word with
  | nil => rfl
  | cons c s ih =>
    have later := fun word => ih word fun d inside => escapes d (mem_cons_of_mem _ inside)
    rw [replaceAll_cons]
    by_cases matched : family.escapePattern.contains c = true
    · rw [if_pos matched, cons_append, singleton_append, words_escaped, later]
      by_cases feed : c = '\n' <;> simp [pushAll, feed]
    · have plain : family.isMetacharacter c = false := by
        by_contra isMeta
        exact matched (escapes c mem_cons_self (by simpa using isMeta))
      have notFeed : c ≠ '\n' := by
        rintro rfl
        cases family <;> exact absurd plain (by decide +kernel)
      rw [if_neg matched, singleton_append, words_plain word (by simpa using matched) plain, later]
      simp [pushAll, notFeed]

theorem foldl_push (word : Str) (s : Str) : s.foldl push (some word) = some (word ++ s) := by
  induction s generalizing word with
  | nil => rw [append_nil]; rfl
  | cons c s ih =>
    rw [foldl_cons, push, Option.getD_some, ih, append_assoc, singleton_append]

theorem pushAll_none (nonempty : s.filter (fun c => c ≠ '\n') ≠ []) : pushAll none s = some (s.filter fun c => c ≠ '\n') := by
  unfold pushAll
  match isFilter : s.filter fun c => c ≠ '\n' with
  | [] => exact absurd isFilter nonempty
  | c :: rest => rw [foldl_cons, push, Option.getD_none, nil_append, foldl_push, singleton_append]

end Replace

end ShellFamily

end Warp.Util
