import Warp.Lib.TornStream

namespace Warp.Proxy

open Str EventStream List

def find (pattern : Str) : Str → Option ℕ
  | [] => if pattern = [] then some 0 else none
  | c :: s => if pattern <+: c :: s then some 0 else (find pattern s).map (· + 1)

def findSseBoundary (buffer : Str) : Option (ℕ × ℕ) :=
  match find ['\r', '\n', '\r', '\n'] buffer, find ['\n', '\n'] buffer with
  | some crlf, some lf => if crlf < lf then some (crlf, 4) else some (lf, 2)
  | some crlf, none => some (crlf, 4)
  | none, some lf => some (lf, 2)
  | none, none => none

def trimEndMatches (c : Char) (line : Str) : Str := line.rdropWhile (· = c)

def stripPrefix (start line : Str) : Option Str := if start <+: line then some (line.drop start.length) else none

def rawEventData (rawEvent : Str) : Str :=
  join ((lines rawEvent).filterMap fun line => (stripPrefix "data:".toList (trimEndMatches '\r' line)).map trimStart)

structure SseDecoder where
  buffer : Str

namespace SseDecoder

def empty : SseDecoder := ⟨[]⟩

/-- The loop of `push`, a turn for each unit of fuel. -/
def drain : ℕ → Str → List Str × Str
  | 0, buffer => ([], buffer)
  | fuel + 1, buffer =>
    match findSseBoundary buffer with
    | none => ([], buffer)
    | some (index, len) =>
      let data := rawEventData (buffer.take index)
      let (events, rest) := drain fuel (buffer.drop (index + len))
      (if data = [] then events else data :: events, rest)

/-- The events that a text completes. A turn of the loop takes characters, so their number is enough fuel. -/
def push (self : SseDecoder) (text : Str) : List Str × SseDecoder :=
  let buffer := self.buffer ++ text
  let (events, rest) := drain buffer.length buffer
  (events, ⟨rest⟩)

def intoRemaining (self : SseDecoder) : Str := self.buffer

def pushAll (self : SseDecoder) : List Str → List Str × SseDecoder
  | [] => ([], self)
  | text :: texts => ((self.push text).1 ++ ((self.push text).2.pushAll texts).1, ((self.push text).2.pushAll texts).2)

end SseDecoder

section Boundary

variable {c : Char} {pattern s block rest : Str}

theorem find_cons_of_starts (starts : pattern <+: c :: s) : find pattern (c :: s) = some 0 := if_pos starts

theorem find_cons (other : ¬ pattern <+: c :: s) : find pattern (c :: s) = (find pattern s).map (· + 1) := if_neg other

theorem findSseBoundary_crlf (starts : ['\r', '\n', '\r', '\n'] <+: c :: s) : findSseBoundary (c :: s) = some (0, 4) := by
  have other : ¬ ['\n', '\n'] <+: c :: s := by
    intro lf
    rw [cons_prefix_cons] at lf starts
    exact absurd (lf.1.trans starts.1.symm) (by decide)
  unfold findSseBoundary
  rw [find_cons_of_starts starts, find_cons other]
  cases find ['\n', '\n'] s with
  | none => rfl
  | some lf => rfl

theorem findSseBoundary_lf (other : ¬ ['\r', '\n', '\r', '\n'] <+: c :: s) (starts : ['\n', '\n'] <+: c :: s) :
    findSseBoundary (c :: s) = some (0, 2) := by
  unfold findSseBoundary
  rw [find_cons_of_starts starts, find_cons other]
  cases find ['\r', '\n', '\r', '\n'] s with
  | none => rfl
  | some crlf => rfl

theorem findSseBoundary_cons (crlf : ¬ ['\r', '\n', '\r', '\n'] <+: c :: s) (lf : ¬ ['\n', '\n'] <+: c :: s) :
    findSseBoundary (c :: s) = (findSseBoundary s).map fun (index, len) => (index + 1, len) := by
  unfold findSseBoundary
  rw [find_cons crlf, find_cons lf]
  cases find ['\r', '\n', '\r', '\n'] s with
  | none =>
    cases find ['\n', '\n'] s with
    | none => rfl
    | some lf => rfl
  | some crlf =>
    cases find ['\n', '\n'] s with
    | none => rfl
    | some lf =>
      simp only [Option.map_some, Nat.add_lt_add_iff_right]
      split
      all_goals rfl

theorem findSseBoundary_none (unbroken : cut s = none) : findSseBoundary s = none := by
  induction s with
  | nil => rfl
  | cons c s ih =>
    by_cases crlf : ['\r', '\n', '\r', '\n'] <+: c :: s
    · rw [cut_cons_crlf crlf] at unbroken
      cases unbroken
    by_cases lf : ['\n', '\n'] <+: c :: s
    · rw [cut_cons_lf lf] at unbroken
      cases unbroken
    rw [cut_cons crlf lf, Option.map_eq_none_iff] at unbroken
    rw [findSseBoundary_cons crlf lf, ih unbroken]
    rfl

theorem findSseBoundary_some (found : cut s = some (block, rest)) : ∃ len,
    findSseBoundary s = some (block.length, len) ∧ s.take block.length = block ∧ s.drop (block.length + len) = rest := by
  induction s generalizing block with
  | nil => cases found
  | cons c s ih =>
    by_cases crlf : ['\r', '\n', '\r', '\n'] <+: c :: s
    · rw [cut_cons_crlf crlf] at found
      cases found
      exact ⟨4, findSseBoundary_crlf crlf, rfl, rfl⟩
    by_cases lf : ['\n', '\n'] <+: c :: s
    · rw [cut_cons_lf lf] at found
      cases found
      exact ⟨2, findSseBoundary_lf crlf lf, rfl, rfl⟩
    rw [cut_cons crlf lf] at found
    obtain ⟨⟨inner, other⟩, foundInner, same⟩ := Option.map_eq_some_iff.mp found
    cases same
    obtain ⟨len, boundary, takes, drops⟩ := ih foundInner
    refine ⟨len, ?_, congrArg (List.cons c) takes, ?_⟩
    · rw [findSseBoundary_cons crlf lf, boundary]
      rfl
    · rw [length_cons, Nat.add_right_comm]
      exact drops

end Boundary

namespace SseDecoder

variable {fuel : ℕ} {s text : Str} {self : SseDecoder} {texts : List Str}

theorem rawEventData_eq (block : Str) : rawEventData block = data block := by
  unfold rawEventData data
  congr 2
  funext line
  unfold stripPrefix
  rw [apply_ite (Option.map trimStart)]
  rfl

theorem drain_blocksFrom : drain fuel s =
    (((blocksFrom fuel s).1.map data).filter fun data => data ≠ [], (blocksFrom fuel s).2) := by
  induction fuel generalizing s with
  | zero => rfl
  | succ fuel ih =>
    cases found : cut s with
    | none =>
      rw [drain, blocksFrom, found, findSseBoundary_none found]
      rfl
    | some parts =>
      obtain ⟨block, rest⟩ := parts
      obtain ⟨len, boundary, takes, drops⟩ := findSseBoundary_some found
      rw [drain, blocksFrom, found, boundary]
      simp only [takes, drops, ih, rawEventData_eq, map_cons]
      by_cases nothing : data block = []
      · rw [if_pos nothing, filter_cons_of_neg (by simpa using nothing)]
      · rw [if_neg nothing, filter_cons_of_pos (by simpa using nothing)]

theorem push_eq : self.push text = (payloads (self.buffer ++ text), ⟨(blocks (self.buffer ++ text)).2⟩) := by
  show ((drain (self.buffer ++ text).length (self.buffer ++ text)).1,
    SseDecoder.mk (drain (self.buffer ++ text).length (self.buffer ++ text)).2) = _
  rw [drain_blocksFrom]
  rfl

theorem pushAll_eq (rests : cut self.buffer = none) : self.pushAll texts =
    (payloads (self.buffer ++ texts.flatten), ⟨(blocks (self.buffer ++ texts.flatten)).2⟩) := by
  induction texts generalizing self with
  | nil =>
    rw [flatten_nil, append_nil]
    unfold payloads
    rw [blocks_of_none rests]
    rfl
  | cons text texts ih =>
    have later := @ih ⟨(blocks (self.buffer ++ text)).2⟩ cut_blocks_rest
    unfold pushAll
    rw [push_eq, later, flatten_cons, ← append_assoc]
    unfold payloads
    rw [@blocks_append (self.buffer ++ text), map_append, filter_append]

/-- However a text is cut, the events and what remains are those of the whole text, and no complete event remains. -/
theorem pushAll_whole (texts : List Str) : empty.pushAll texts = empty.pushAll [texts.flatten] ∧
    findSseBoundary (empty.pushAll texts).2.intoRemaining = none := by
  have whole (texts : List Str) : empty.pushAll texts = (payloads texts.flatten, ⟨(blocks texts.flatten).2⟩) := pushAll_eq rfl
  constructor
  · rw [whole, whole, flatten_singleton]
  · rw [whole]
    exact findSseBoundary_none cut_blocks_rest

end SseDecoder

end Warp.Proxy
