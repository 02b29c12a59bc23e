import Warp.Proxy.Answer

namespace Warp.Proxy

open Str EventStream List

/-- A JSON parser fails at line ends alone, and at the first character of a field after them, whatever follows. -/
structure RejectsFields (serde : SerdeJson) : Prop where
  blank : ∀ ends, LineEnds ends → ∃ err, serde.fromStr (.ofList ends) = .error err
  field : ∀ ends c, LineEnds ends → c ∈ fieldStarts →
    ∃ err, ∀ rest, serde.fromStr (.ofList (ends ++ c :: rest)) = .error err

section Truncate

variable {c : Char} {s t : Str} {n : ℕ}

theorem truncate_cons : truncate (c :: s) (n + 1) = c :: truncate s n := by
  unfold truncate
  rw [drop_succ_cons, take_succ_cons]
  split
  all_goals rfl

theorem truncate_of_le (short : s.length ≤ n) : truncate s n = s := by
  unfold truncate
  rw [if_pos (drop_eq_nil_of_le short), take_of_length_le short]

theorem truncate_of_lt (long : n < s.length) : truncate s n = s.take n ++ "\n...[truncated]".toList := by
  have some : s.drop n ≠ [] := fun none => absurd (List.drop_eq_nil_iff.mp none) (by omega)
  unfold truncate
  rw [if_neg some]

theorem length_truncate_lt (long : n < s.length) : n < (truncate s n).length := by
  rw [truncate_of_lt long, length_append, length_take, Nat.min_eq_left (Nat.le_of_lt long)]
  exact Nat.lt_add_of_pos_right (by decide)

theorem truncate_shown (marks : List Mark) (n : ℕ) : truncate (shown marks) n = truncate (plain marks) n ↔
    ∀ before mark after, marks = before ++ mark :: after → mark.count ≠ 0 → before.length < n →
      n < marks.length ∧ ∀ c ∈ (plain (mark :: after)).take (n - before.length), c = replacement := by
  induction marks generalizing n with
  | nil =>
    apply iff_of_true rfl
    intro before mark after split
    exact absurd split.symm (append_ne_nil_of_right_ne_nil _ (cons_ne_nil _ _))
  | cons mark marks ih =>
    cases n with
    | zero =>
      apply iff_of_true
      · have first := List.length_pos_iff.mpr (mt shown_eq_nil.mp (cons_ne_nil mark marks))
        have second : 0 < (plain (mark :: marks)).length := Nat.succ_pos _
        rw [truncate_of_lt first, truncate_of_lt second]
        rfl
      · exact fun before mark after _ _ short => absurd short (Nat.not_lt_zero _)
    | succ n =>
      by_cases whole : mark.count = 0
      · rw [shown_cons, Mark.shown_of_whole whole, singleton_append, plain_cons, truncate_cons, truncate_cons,
          List.cons.injEq, and_iff_right rfl, ih]
        constructor
        · intro quoted before torn after split some short
          rcases List.cons_eq_append_iff.mp split with ⟨rfl, same⟩ | ⟨before, rfl, rest⟩
          · cases same
            exact absurd whole some
          · rw [length_cons] at short
            have here := quoted before torn after rest some (by omega)
            rw [length_cons, length_cons, Nat.add_sub_add_right]
            exact ⟨by omega, here.2⟩
        · intro quoted before torn after split some short
          have here := quoted (mark :: before) torn after (by rw [split]; rfl) some (by rw [length_cons]; omega)
          rw [length_cons, length_cons, Nat.add_sub_add_right] at here
          exact ⟨by omega, here.2⟩
      · have length : (plain (mark :: marks)).length = (mark :: marks).length := length_map _
        have longer := @length_plain_lt (mark :: marks) ⟨mark, mem_cons_self, whole⟩
        by_cases long : n + 1 < (mark :: marks).length
        · rw [truncate_of_lt (by omega), truncate_of_lt (by omega), append_left_inj,
            take_shown whole (by omega)]
          constructor
          · intro all before torn after split some short
            refine ⟨long, ?_⟩
            intro c member
            apply all c
            rw [split, plain_append, take_append]
            apply mem_append_right
            unfold plain at member ⊢
            rw [length_map]
            exact member
          · intro quoted
            exact (quoted [] mark marks rfl whole (Nat.succ_pos n)).2
        · have different : truncate (shown (mark :: marks)) (n + 1) ≠ truncate (plain (mark :: marks)) (n + 1) := by
            intro same
            have lengths := congrArg List.length same
            rw [truncate_of_le (by omega : (plain (mark :: marks)).length ≤ n + 1)] at lengths
            by_cases seen : n + 1 < (shown (mark :: marks)).length
            · have := length_truncate_lt seen
              omega
            · rw [truncate_of_le (by omega)] at lengths
              omega
          apply iff_of_false different
          intro quoted
          exact long (quoted [] mark marks rfl whole (Nat.succ_pos n)).1

end Truncate

/-- A cut in a character that is quoted where the stream has no payload: one of the first 1200 after the last blank
line, unless the quote goes on with replacement characters alone to its end. -/
def TearsQuote (positions : List ℕ) (s : Str) : Prop :=
  ∃ front before c after, s = front ++ (before ++ c :: after) ∧ (blocks s).2 = before ++ c :: after ∧
    Str.Torn positions (byteLen (front ++ before)) c ∧ before.length < 1200 ∧
    ¬ (1200 < (before ++ c :: after).length ∧ ∀ d ∈ (c :: after).take (1200 - before.length), d = replacement)

section Rest

variable {app : AppState} {ids : WarpIds} {self : StreamState} {serde : SerdeJson} {wireApi : WireApi}
  {ends : Str} {c : Char} {marks : List Mark}

theorem ascii_lineEnds (lineEnds : LineEnds ends) : ∀ c ∈ ends, c.utf8Size = 1 := by
  intro c member
  rcases lineEnds c member with rfl | rfl
  all_goals decide

theorem ascii_fieldStarts : ∀ c ∈ fieldStarts, c.utf8Size = 1 := ascii_of_all (by decide)

theorem parseBackendFullResponse_error {body : String} {err : String} (failed : serde.fromStr body = .error err)
    (toolCalls : ToolCallAccumulatorSet) (whole : Bool) :
    parseBackendFullResponse serde wireApi body toolCalls whole = .error err := by
  cases wireApi with
  | chatCompletions =>
    unfold parseBackendFullResponse parseChatFullResponse SerdeJson.read
    rw [failed]
    rfl
  | responses =>
    unfold parseBackendFullResponse parseResponsesFullResponse
    rw [failed]
    rfl

theorem rest_events {err : String} (remaining : Str) (unparsed : self.parsedAnyBackendEvent = false)
    (some : trim remaining ≠ []) (failed : app.serde.fromStr (.ofList remaining) = .error err) :
    ({ self with decoder := ⟨remaining⟩ }.fullResponse app ids).yieldOutputs app ids = (self.textDelta app ids
      ("Backend did not return " ++ app.config.wireApi.asStr ++ " SSE or JSON response: " ++ err ++ ". Raw body: " ++
        String.ofList (truncate remaining 1200))).yieldOutputs app ids := by
  have go : ¬ (self.parsedAnyBackendEvent || trim remaining = []) = true := by
    rw [unparsed, Bool.false_or, decide_eq_true_eq]
    exact some
  unfold StreamState.fullResponse
  dsimp only
  rw [SseDecoder.intoRemaining, if_neg go, parseBackendFullResponse_error failed]
  dsimp only
  rw [StreamState.textDelta_decoder, StreamState.yieldOutputs_decoder]

theorem yieldOutputs_empty (none : self.toolCalls = .empty) :
    self.yieldOutputs app ids = self.events ++ [finishedEventDone] := by
  unfold StreamState.yieldOutputs
  rw [none]
  rfl

theorem messageText_quoted (quiet : messageText self.events = "") (none : self.toolCalls = .empty) (text : String) :
    messageText ((self.textDelta app ids text).yieldOutputs app ids) = text := by
  have grown := @StreamState.grown_textDelta app ids self text
  rw [yieldOutputs_empty (grown.toolCalls.trans none), messageText_append, grown.messageText, quiet,
    String.empty_append, join_cons, join_nil, String.append_empty]
  exact String.append_empty

theorem rest_iff (rejects : RejectsFields app.serde) (form : Form (plain marks)) (unparsed : self.parsedAnyBackendEvent = false)
    (quiet : messageText self.events = "") (none : self.toolCalls = .empty) :
    ({ self with decoder := ⟨shown marks⟩ }.fullResponse app ids).yieldOutputs app ids =
        ({ self with decoder := ⟨plain marks⟩ }.fullResponse app ids).yieldOutputs app ids ↔
      truncate (shown marks) 1200 = truncate (plain marks) 1200 := by
  rcases form.shape with lineEnds | ⟨ends, c, rest, split, lineEnds, start⟩
  · have same : shown marks = plain marks := by
      apply shown_of_whole
      intro mark member
      exact Mark.count_of_ascii (ascii_lineEnds lineEnds _ (List.mem_map_of_mem member))
    rw [same]
    exact iff_of_true rfl rfl
  · have ascii : ∀ d ∈ ends ++ [c], d.utf8Size = 1 := by
      intro d member
      rcases List.mem_append.mp member with inside | last
      · exact ascii_lineEnds lineEnds d inside
      · rw [List.mem_singleton.mp last]
        exact ascii_fieldStarts c start
    obtain ⟨later, isLater⟩ := @prefix_of_plain (ends ++ [c]) marks ascii
      ⟨rest, by rw [split, append_assoc]; rfl⟩
    have seen : shown marks = ends ++ c :: shown later := by
      rw [isLater, shown_append, shown_intact, append_assoc]
      rfl
    obtain ⟨err, failed⟩ := rejects.field ends c lineEnds start
    rw [seen, split, rest_events _ unparsed (trim_ends lineEnds start) (failed _),
      rest_events _ unparsed (trim_ends lineEnds start) (failed _)]
    constructor
    · intro same
      have texts := congrArg messageText same
      rw [messageText_quoted quiet none, messageText_quoted quiet none, String.append_right_inj] at texts
      exact String.ofList_injective texts
    · intro same
      rw [same]

end Rest

def EveryEventParses (app : AppState) (payloads : List Str) : Prop :=
  ∀ data ∈ payloads, isDone data = false → ∃ parsed,
    parseBackendSseData app.serde app.config.wireApi (.ofList data) .empty true = .ok parsed

section Body

variable {app : AppState} {ids : WarpIds} {serde : SerdeJson} {events : List Str} {body : Str} {ends : Str} {c : Char}

theorem applyResponsesEvent_parses {event : Json} {calls calls' : ToolCallAccumulatorSet} {whole whole' : Bool}
    (parses : ∃ parsed, applyResponsesEvent event calls whole = .ok parsed) :
    ∃ parsed, applyResponsesEvent event calls' whole' = .ok parsed := by
  obtain ⟨parsed, applied⟩ := parses
  unfold applyResponsesEvent at applied ⊢
  dsimp only at applied ⊢
  split at applied
  · exact ⟨_, rfl⟩
  · exact ⟨_, rfl⟩
  · exact ⟨_, rfl⟩
  · split
    all_goals exact ⟨_, rfl⟩
  · split
    all_goals exact ⟨_, rfl⟩
  · split
    all_goals exact ⟨_, rfl⟩
  · split
    all_goals exact ⟨_, rfl⟩
  · cases applied
  · cases applied
  · exact ⟨_, rfl⟩

theorem parseBackendSseData_parses {wireApi : WireApi} {data : String} {calls calls' : ToolCallAccumulatorSet}
    {whole whole' : Bool} (parses : ∃ parsed, parseBackendSseData serde wireApi data calls whole = .ok parsed) :
    ∃ parsed, parseBackendSseData serde wireApi data calls' whole' = .ok parsed := by
  cases wireApi with
  | chatCompletions =>
    obtain ⟨parsed, applied⟩ := parses
    unfold parseBackendSseData parseChatSseData at applied ⊢
    dsimp only at applied ⊢
    cases read : serde.read readChatChunk data with
    | error err =>
      rw [read] at applied
      cases applied
    | ok deltas => exact ⟨_, rfl⟩
  | responses =>
    unfold parseBackendSseData parseResponsesSseData at parses ⊢
    dsimp only at parses ⊢
    cases read : serde.fromStr data with
    | error err =>
      obtain ⟨parsed, applied⟩ := parses
      rw [read] at applied
      cases applied
    | ok event =>
      rw [read] at parses
      exact applyResponsesEvent_parses parses

theorem bodyEvents_done {wireApi : WireApi} {data : Str} {calls : ToolCallAccumulatorSet} {seen : Bool}
    (done : trim data = "[DONE]".toList) :
    bodyEvents serde wireApi (data :: events) calls seen = bodyEvents serde wireApi events calls seen := if_pos done

theorem bodyEvents_ok {wireApi : WireApi} {data : Str} {calls after last : ToolCallAccumulatorSet} {seen final : Bool}
    {texts later : List String} (more : trim data ≠ "[DONE]".toList)
    (parsed : parseBackendSseData serde wireApi (.ofList data) calls (!seen) = .ok (texts, after))
    (rest : bodyEvents serde wireApi events after (seen || texts.any fun delta => delta ≠ "") =
      .ok (later, last, final)) :
    bodyEvents serde wireApi (data :: events) calls seen = .ok (texts ++ later, last, final) := by
  rw [bodyEvents, if_neg more, parsed]
  show (bodyEvents serde wireApi events after (seen || texts.any fun delta => delta ≠ "")).bind _ = _
  rw [rest]
  rfl

theorem bodyEvents_run (parses : EveryEventParses app events) (state : StreamState) : ∃ texts,
    bodyEvents app.serde app.config.wireApi events state.toolCalls state.seenBackendTextDelta =
        .ok (texts, (events.foldl (StreamState.onData app ids) state).toolCalls,
          (events.foldl (StreamState.onData app ids) state).seenBackendTextDelta) ∧
      messageText (events.foldl (StreamState.onData app ids) state).events =
        messageText state.events ++ String.join texts := by
  induction events generalizing state with
  | nil => exact ⟨[], rfl, String.append_empty.symm⟩
  | cons data events ih =>
    obtain ⟨here, later⟩ := List.forall_mem_cons.mp parses
    by_cases done : trim data = "[DONE]".toList
    · rw [bodyEvents_done done, foldl_cons, StreamState.onData_done done]
      exact ih later { state with parsedAnyBackendEvent := true }
    obtain ⟨⟨texts, after⟩, parsed⟩ := @parseBackendSseData_parses app.serde
      app.config.wireApi (.ofList data) .empty state.toolCalls true (!state.seenBackendTextDelta)
      (here (decide_eq_false done))
    obtain ⟨grown, seen⟩ := @StreamState.foldl_content app ids
      { state with parsedAnyBackendEvent := true, toolCalls := after } texts
    obtain ⟨more, read, text⟩ := ih later (state.onData app ids data)
    have onData := @StreamState.onData_ok app ids state data done texts after parsed
    rw [foldl_cons, text]
    refine ⟨texts ++ more, ?_, ?_⟩
    · apply bodyEvents_ok done parsed
      rw [← read, onData, grown.toolCalls, seen]
    · rw [onData, grown.messageText, join_append, String.append_assoc]

theorem fullResponse_not_ok {api : WireApi} {remaining : Str} (rejects : RejectsFields serde) (form : Form remaining)
    (toolCalls : ToolCallAccumulatorSet) (whole : Bool) :
    ∃ err, parseBackendFullResponse serde api (.ofList remaining) toolCalls whole = .error err := by
  rcases form.shape with lineEnds | ⟨ends, c, rest, rfl, lineEnds, start⟩
  · obtain ⟨err, failed⟩ := rejects.blank remaining lineEnds
    exact ⟨err, parseBackendFullResponse_error failed _ _⟩
  · obtain ⟨err, failed⟩ := rejects.field ends c lineEnds start
    exact ⟨err, parseBackendFullResponse_error (failed rest) _ _⟩

theorem backendTextFromBody_iff (rejects : RejectsFields app.serde) (form : Form body)
    (parses : EveryEventParses app (payloads body)) (state : StreamState) (quiet : messageText state.events = "")
    (calls : state.toolCalls = .empty) (seen : state.seenBackendTextDelta = false) :
    backendTextFromBody app.serde app.config.wireApi body =
        .ok (messageText ((payloads body).foldl (StreamState.onData app ids) state).events) ↔
      looksLikeSse body = true ∧
        (trim (blocks body).2 = [] ∨ "data:".toList <+: trimStart (blocks body).2) := by
  have pushed : SseDecoder.empty.push body = (payloads body, ⟨(blocks body).2⟩) := SseDecoder.push_eq
  obtain ⟨texts, read, text⟩ := @bodyEvents_run app ids _ parses state
  rw [calls, seen] at read
  rw [quiet, String.empty_append] at text
  unfold backendTextFromBody
  rw [text]
  cases sse : looksLikeSse body with
  | false =>
    obtain ⟨err, failed⟩ := @fullResponse_not_ok app.serde app.config.wireApi body rejects form .empty true
    rw [if_neg (by decide), failed]
    apply iff_of_false
    · nofun
    · rintro ⟨nothing, -⟩
      cases nothing
  | true =>
    rw [if_pos rfl, pushed, and_iff_right rfl]
    dsimp only
    rw [read]
    show ((if trim (blocks body).2 ≠ [] ∧ ¬ "data:".toList <+: trimStart (blocks body).2 then _ else _) :
      Except String String) = _ ↔ _
    by_cases left : trim (blocks body).2 ≠ [] ∧ ¬ "data:".toList <+: trimStart (blocks body).2
    · rw [if_pos left]
      obtain ⟨err, failed⟩ := @fullResponse_not_ok app.serde app.config.wireApi (blocks body).2 rejects form.rest
        ((payloads body).foldl (StreamState.onData app ids) state).toolCalls
        !((payloads body).foldl (StreamState.onData app ids) state).seenBackendTextDelta
      apply iff_of_false
      · show (parseBackendFullResponse app.serde app.config.wireApi (.ofList (blocks body).2) _ _ >>= _) ≠ _
        rw [failed]
        nofun
      · rintro (blank | data)
        · exact left.1 blank
        · exact left.2 data
    · rw [if_neg left]
      apply iff_of_true rfl
      rw [not_and_or, not_not, not_not] at left
      exact left

end Body

def streamedText {Task : Type} (app : AppState) (ids : WarpIds) (tasks : Option (List Task))
    (chunks : List (List UInt8)) : String :=
  messageText (chunks.foldl (StreamState.onBytes app ids) (.first ids tasks)).events

section Chunks

variable {Task : Type} {app : AppState} {ids : WarpIds} {tasks : Option (List Task)} {path status text : String}
  {positions : List ℕ} {body : Str} {chunks : List (List UInt8)} {marks rest : List Mark}

theorem tearsQuote_iff (torn : TornAt positions 0 marks) (suffix : rest <:+ marks)
    (isRest : (blocks (plain marks)).2 = plain rest) : TearsQuote positions (plain marks) ↔
      ¬ truncate (shown rest) 1200 = truncate (plain rest) 1200 := by
  obtain ⟨front, rfl⟩ := suffix
  rw [truncate_shown]
  constructor
  · rintro ⟨first, before, c, after, split, isRest', tears, short, bad⟩ quoted
    rw [isRest] at isRest'
    obtain ⟨before, others, rfl, rfl, rest'⟩ := List.map_eq_append_iff.mp isRest'
    obtain ⟨mark, after, rfl, rfl, rfl⟩ := List.map_eq_cons_iff.mp rest'
    have isFirst : first = plain front := by
      rw [plain_append] at split
      exact (append_cancel_right (split.trans (congrArg (first ++ ·) (isRest'.symm)))).symm
    have some : mark.count ≠ 0 := by
      rw [torn (front ++ before) mark after (append_assoc _ _ _).symm, Nat.zero_add, plain_append, ← isFirst]
      exact tears
    rw [length_map] at short
    obtain ⟨long, all⟩ := quoted before mark after rfl some short
    apply bad
    rw [length_map]
    rw [← isRest']
    refine ⟨?_, all⟩
    unfold plain
    rw [length_map]
    exact long
  · intro unquoted
    simp only [not_forall] at unquoted
    obtain ⟨before, mark, after, rfl, some, short, bad⟩ := unquoted
    have here := torn (front ++ before) mark after (append_assoc _ _ _).symm
    rw [Nat.zero_add, plain_append] at here
    refine ⟨plain front, plain before, mark.char, plain after, ?_, ?_, here.mp some, ?_, ?_⟩
    · rw [plain_append, plain_append]
      rfl
    · rw [isRest, plain_append]
      rfl
    · unfold plain
      rw [length_map]
      exact short
    · rintro ⟨long, all⟩
      apply bad
      have length : (plain before ++ mark.char :: plain after).length = (before ++ mark :: after).length := by
        unfold plain
        simp
      rw [length] at long
      refine ⟨long, ?_⟩
      rw [← plain_cons] at all
      unfold plain at all ⊢
      rw [length_map] at all
      exact all

theorem decodedPayloads_eq : decodedPayloads chunks = payloads (chunks.flatMap fromUtf8Lossy) := by
  unfold decodedPayloads
  rw [SseDecoder.pushAll_eq rfl, flatMap_def]
  rfl

theorem decodedPayloads_whole : decodedPayloads [bytes body] = payloads body := by
  rw [decodedPayloads_eq, flatMap_singleton, fromUtf8Lossy_bytes]

theorem decodedPayloads_iff (content : chunks.flatten = bytes body) :
    decodedPayloads chunks = decodedPayloads [bytes body] ↔ ¬ TearsPayload (cuts 0 chunks) body := by
  obtain ⟨marks, rfl, isShown, torn⟩ := marks_of_decoded (decoded_chunks content)
  rw [decodedPayloads_whole, decodedPayloads_eq, ← isShown, tearsPayload_iff torn, payloads_shown]

theorem foldl_onBytes_eq (self : StreamState) (fresh : self.decoder = .empty) :
    chunks.foldl (StreamState.onBytes app ids) self =
      { (payloads (chunks.flatMap fromUtf8Lossy)).foldl (StreamState.onData app ids) self with
        decoder := ⟨(blocks (chunks.flatMap fromUtf8Lossy)).2⟩ } := by
  rw [StreamState.foldl_onBytes, fresh, SseDecoder.pushAll_eq rfl, flatMap_def]
  rfl

theorem streamedText_eq : streamedText app ids tasks chunks =
    messageText ((decodedPayloads chunks).foldl (StreamState.onData app ids) (.first ids tasks)).events := by
  unfold streamedText
  rw [foldl_onBytes_eq _ rfl, decodedPayloads_eq]

theorem proxyMultiAgent_of_payloads (configured : app.config.openaiApiKey ≠ none) {other : List (List UInt8)}
    (same : decodedPayloads chunks = decodedPayloads other) (some : decodedPayloads other ≠ []) :
    proxyMultiAgent app ids tasks path (.ok ⟨status, true, text, chunks.map .ok⟩) =
      proxyMultiAgent app ids tasks path (.ok ⟨status, true, text, other.map .ok⟩) := by
  have run : ∀ chunks, decodedPayloads chunks = decodedPayloads other →
      proxyMultiAgent app ids tasks path (.ok ⟨status, true, text, chunks.map .ok⟩) =
        ((decodedPayloads other).foldl (StreamState.onData app ids) (.first ids tasks)).yieldOutputs app ids := by
    intro chunks same
    have parsed := @StreamState.parsed_foldl app ids (.first ids tasks) (decodedPayloads other)
    rw [decide_eq_true some, Bool.or_true] at parsed
    rw [proxyMultiAgent_ok configured, foldl_onBytes_eq _ rfl, ← decodedPayloads_eq, same,
      StreamState.fullResponse_of_parsed]
    · exact StreamState.yieldOutputs_decoder
    · exact parsed
  rw [run chunks same, run other rfl]

/-- How a body is cut into chunks changes nothing, and the text is the one of the whole body, just where no cut is in a
character of a payload, none is in the quote of what is left of a body without payloads, and a body whose events parse
starts like a stream and is left with nothing but an unfinished payload. -/
theorem streaming_iff (app : AppState) (ids : WarpIds) (tasks : Option (List Task)) (path status text : String)
    (body : Str) (chunks : List (List UInt8)) (configured : app.config.openaiApiKey ≠ none)
    (rejects : RejectsFields app.serde) (form : Form body) (content : chunks.flatten = bytes body) :
    (decodedPayloads chunks = decodedPayloads [bytes body] ∧
      proxyMultiAgent app ids tasks path (.ok ⟨status, true, text, chunks.map .ok⟩) =
        proxyMultiAgent app ids tasks path (.ok ⟨status, true, text, [bytes body].map .ok⟩) ∧
      (EveryEventParses app (decodedPayloads chunks) →
        backendTextFromBody app.serde app.config.wireApi body = .ok (streamedText app ids tasks chunks))) ↔
    ¬ TearsPayload (cuts 0 chunks) body ∧
      (payloads body = [] → ¬ TearsQuote (cuts 0 chunks) body) ∧
      (EveryEventParses app (payloads body) →
        looksLikeSse body = true ∧
          (trim (blocks body).2 = [] ∨ "data:".toList <+: trimStart (blocks body).2)) := by
  rw [← decodedPayloads_iff content]
  apply and_congr_right
  intro same
  obtain ⟨marks, rfl, isShown, torn⟩ := marks_of_decoded (decoded_chunks content)
  obtain ⟨blocks', rest, plains, showns, suffix, -⟩ := blocks_marks marks
  have isRest : (blocks (plain marks)).2 = plain rest := congrArg Prod.snd plains
  have isRestShown : (blocks (shown marks)).2 = shown rest := congrArg Prod.snd showns
  rw [decodedPayloads_whole, decodedPayloads_eq, ← isShown] at same
  rw [tearsQuote_iff torn suffix isRest, not_not, decodedPayloads_eq, ← isShown]
  apply and_congr
  · by_cases some : payloads (plain marks) = []
    · have none : payloads (shown marks) = [] := same.trans some
      rw [forall_prop_of_true some, proxyMultiAgent_ok configured, proxyMultiAgent_ok configured,
        foldl_onBytes_eq _ rfl, foldl_onBytes_eq _ rfl, ← isShown, flatMap_singleton, fromUtf8Lossy_bytes, some,
        none, isRest, isRestShown]
      exact rest_iff rejects (isRest ▸ form.rest) rfl AnswerStream.messageText_first rfl
    · apply iff_of_true
      · apply proxyMultiAgent_of_payloads configured
        · rw [decodedPayloads_whole, decodedPayloads_eq, ← isShown, same]
        · rw [decodedPayloads_whole]
          exact some
      · exact fun none => absurd none some
  · rw [same, streamedText_eq, decodedPayloads_eq, ← isShown, same]
    apply forall_congr'
    intro parses
    exact backendTextFromBody_iff rejects form parses _ AnswerStream.messageText_first rfl rfl

end Chunks

def SerdeJson.sampleDelta (delta : String) : String :=
  "\x7b\"type\":\"response.output_text.delta\",\"delta\":\"" ++ delta ++ "\"\x7d"

def SerdeJson.sampleDeltaEvent (delta : String) : Json :=
  .object [("type", .string "response.output_text.delta"), ("delta", .string delta)]

/-- Reads the text delta of the sample, whole and torn, as a JSON parser does. -/
def SerdeJson.sampleDeltaReader : SerdeJson where
  fromStr := fun text =>
    if text = sampleDelta "\u00E9" then .ok (sampleDeltaEvent "\u00E9")
    else if text = sampleDelta "\uFFFD\uFFFD" then .ok (sampleDeltaEvent "\uFFFD\uFFFD")
    else .error "expected value at line 1 column 1"
  toString := fun _ => ""
  typeError := fun _ => "invalid type"

def AppState.sampleDelta : AppState := { AppState.sample with serde := .sampleDeltaReader }

theorem sampleDeltaReader_rejects : RejectsFields .sampleDeltaReader := by
  have fails : ∀ text : Str, text.head? ≠ some '\x7b' →
      SerdeJson.sampleDeltaReader.fromStr (.ofList text) = .error "expected value at line 1 column 1" := by
    intro text other
    have whole : String.ofList text ≠ SerdeJson.sampleDelta "\u00E9" := by
      intro same
      apply other
      rw [← @String.toList_ofList text, same]
      rfl
    have torn : String.ofList text ≠ SerdeJson.sampleDelta "\uFFFD\uFFFD" := by
      intro same
      apply other
      rw [← @String.toList_ofList text, same]
      rfl
    simp only [SerdeJson.sampleDeltaReader, if_neg whole, if_neg torn]
  constructor
  · intro ends lineEnds
    refine ⟨_, fails ends ?_⟩
    intro starts
    rcases lineEnds _ (mem_of_head? starts) with same | same
    all_goals exact absurd same (by decide)
  · intro ends c lineEnds start
    refine ⟨_, fun rest => fails (ends ++ c :: rest) ?_⟩
    intro starts
    cases ends with
    | nil =>
      rw [Option.some.inj starts] at start
      exact absurd start (by decide)
    | cons first ends =>
      rcases lineEnds first mem_cons_self with same | same
      all_goals
        rw [same] at starts
        exact absurd (Option.some.inj starts) (by decide)

def sampleStream : Str := "data: ".toList ++ (SerdeJson.sampleDelta "\u00E9").toList ++ "\n\n".toList

def sampleChunks : List (List UInt8) := [(bytes sampleStream).take 53, (bytes sampleStream).drop 53]

theorem sampleChunks_flatten : sampleChunks.flatten = bytes sampleStream := by
  unfold sampleChunks
  rw [flatten_cons, flatten_singleton, take_append_drop]

theorem streaming_iff_sample :
    (decodedPayloads sampleChunks = decodedPayloads [bytes sampleStream] ∧
      proxyMultiAgent .sampleDelta .sample (none : Option (List Unit)) "/" (.ok ⟨"200 OK", true, "", sampleChunks.map .ok⟩) =
        proxyMultiAgent .sampleDelta .sample (none : Option (List Unit)) "/"
          (.ok ⟨"200 OK", true, "", [bytes sampleStream].map .ok⟩) ∧
      (EveryEventParses .sampleDelta (decodedPayloads sampleChunks) →
        backendTextFromBody AppState.sampleDelta.serde AppState.sampleDelta.config.wireApi sampleStream =
          .ok (streamedText .sampleDelta .sample (none : Option (List Unit)) sampleChunks))) ↔
    ¬ TearsPayload (cuts 0 sampleChunks) sampleStream ∧
      (payloads sampleStream = [] → ¬ TearsQuote (cuts 0 sampleChunks) sampleStream) ∧
      (EveryEventParses .sampleDelta (payloads sampleStream) →
        looksLikeSse sampleStream = true ∧
          (trim (blocks sampleStream).2 = [] ∨ "data:".toList <+: trimStart (blocks sampleStream).2)) :=
  streaming_iff .sampleDelta .sample none "/" "200 OK" "" sampleStream sampleChunks (by decide) sampleDeltaReader_rejects
    (by decide +kernel) sampleChunks_flatten

theorem sampleStream_torn : TearsPayload (cuts 0 sampleChunks) sampleStream := by
  refine ⟨sampleStream.take 52, '\u00E9', sampleStream.drop 53, ?_, ?_, ?_, ?_⟩
  all_goals decide +kernel

/-- The character arrives as two replacement characters. -/
theorem sampleStream_differs : ¬ ∀ (app : AppState) (ids : WarpIds) (tasks : Option (List Unit))
    (path status text : String) (body : Str) (chunks : List (List UInt8)), app.config.openaiApiKey ≠ none →
      RejectsFields app.serde → Form body → chunks.flatten = bytes body →
    decodedPayloads chunks = decodedPayloads [bytes body] ∧
      proxyMultiAgent app ids tasks path (.ok ⟨status, true, text, chunks.map .ok⟩) =
        proxyMultiAgent app ids tasks path (.ok ⟨status, true, text, [bytes body].map .ok⟩) ∧
      (EveryEventParses app (decodedPayloads chunks) →
        backendTextFromBody app.serde app.config.wireApi body = .ok (streamedText app ids tasks chunks)) := by
  intro claimed
  obtain ⟨same, -⟩ := claimed .sampleDelta .sample none "/" "200 OK" "" sampleStream sampleChunks (by decide)
    sampleDeltaReader_rejects (by decide +kernel) sampleChunks_flatten
  exact (decodedPayloads_iff sampleChunks_flatten).mp same sampleStream_torn

end Warp.Proxy
