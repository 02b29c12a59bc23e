import Warp.Lib.ByteSlice

namespace Warp.Str

open List

def bytes (s : Str) : List UInt8 := s.flatMap String.utf8EncodeChar

def replacement : Char := '\uFFFD'

def isContinuation (byte : UInt8) : Bool := 0x80 ≤ byte && byte < 0xC0

def charWidth (first : UInt8) : ℕ :=
  if first < 0x80 then 1
  else if first < 0xC2 then 0
  else if first < 0xE0 then 2
  else if first < 0xF0 then 3
  else if first < 0xF5 then 4
  else 0

def secondFits (first second : UInt8) : Bool :=
  if first = 0xE0 then 0xA0 ≤ second && second < 0xC0
  else if first = 0xED then 0x80 ≤ second && second < 0xA0
  else if first = 0xF0 then 0x90 ≤ second && second < 0xC0
  else if first = 0xF4 then 0x80 ≤ second && second < 0x90
  else isContinuation second

def continues : List UInt8 → UInt8 → Bool
  | [], _ => false
  | [first], byte => secondFits first byte
  | _, byte => isContinuation byte

def decodeChar (bytes : List UInt8) : Char := (bytes.toByteArray.utf8DecodeChar? 0).getD replacement

/-- The characters that a byte ends without pending ones, and what is pending after it. -/
def scanFirst (byte : UInt8) : Str × List UInt8 :=
  if charWidth byte = 0 then ([replacement], [])
  else if charWidth byte = 1 then ([decodeChar [byte]], [])
  else ([], [byte])

def scan (pending : List UInt8) (byte : UInt8) : Str × List UInt8 :=
  if pending = [] then scanFirst byte
  else if continues pending byte then
    if (pending ++ [byte]).length = charWidth (pending.headD 0) then ([decodeChar (pending ++ [byte])], [])
    else ([], pending ++ [byte])
  else (replacement :: (scanFirst byte).1, (scanFirst byte).2)

def lossyFrom (pending : List UInt8) : List UInt8 → Str
  | [] => if pending = [] then [] else [replacement]
  | byte :: bytes => (scan pending byte).1 ++ lossyFrom (scan pending byte).2 bytes

/-- Decodes UTF-8, with a replacement character for each longest run of bytes that begins a character and for each
other byte that is part of none. -/
def fromUtf8Lossy (bytes : List UInt8) : Str := lossyFrom [] bytes

section Encoding

variable {c : Char} {s t : Str} {first second byte : UInt8} {before rest : List UInt8}

@[simp] theorem bytes_nil : bytes [] = [] := rfl

@[simp] theorem bytes_cons : bytes (c :: s) = String.utf8EncodeChar c ++ bytes s := flatMap_cons

@[simp] theorem bytes_append : bytes (s ++ t) = bytes s ++ bytes t := flatMap_append

theorem bytes_length : (bytes s).length = byteLen s := by
  induction s with
  | nil => rfl
  | cons c s ih => rw [bytes_cons, length_append, String.length_utf8EncodeChar, ih, byteLen_cons]

theorem toNat_ofNat {n : ℕ} (small : n < 256) : (UInt8.ofNat n).toNat = n := by
  rw [UInt8.toNat_ofNat', Nat.mod_eq_of_lt small]

theorem isContinuation_ofNat {n : ℕ} (low : 0x80 ≤ n) (high : n < 0xC0) : isContinuation (.ofNat n) = true := by
  unfold isContinuation
  rw [Bool.and_eq_true, decide_eq_true_eq, decide_eq_true_eq, UInt8.le_iff_toNat_le, UInt8.lt_iff_toNat_lt,
    toNat_ofNat (by omega)]
  exact ⟨low, high⟩

theorem charWidth_ofNat {n : ℕ} (small : n < 256) : charWidth (.ofNat n) =
    if n < 0x80 then 1 else if n < 0xC2 then 0 else if n < 0xE0 then 2 else if n < 0xF0 then 3
    else if n < 0xF5 then 4 else 0 := by
  unfold charWidth
  simp only [UInt8.lt_iff_toNat_lt, toNat_ofNat small]
  rfl

theorem secondFits_ofNat {n m : ℕ} (small : n < 256) (low : 0x80 ≤ m) (high : m < 0xC0)
    (e0 : n = 0xE0 → 0xA0 ≤ m) (ed : n = 0xED → m < 0xA0) (f0 : n = 0xF0 → 0x90 ≤ m) (f4 : n = 0xF4 → m < 0x90) :
    secondFits (.ofNat n) (.ofNat m) = true := by
  have bytes : m < 256 := by omega
  unfold secondFits
  rw [isContinuation_ofNat low high]
  simp only [← UInt8.toNat_inj, UInt8.le_iff_toNat_le, UInt8.lt_iff_toNat_lt, toNat_ofNat small, toNat_ofNat bytes,
    UInt8.reduceToNat]
  split_ifs with isE0 isED isF0 isF4
  all_goals simp only [Bool.and_eq_true, decide_eq_true_eq]
  · exact ⟨e0 isE0, high⟩
  · exact ⟨low, ed isED⟩
  · exact ⟨f0 isF0, high⟩
  · exact ⟨low, f4 isF4⟩

structure Encodes (c : Char) (first second : UInt8) (rest : List UInt8) : Prop where
  eq : String.utf8EncodeChar c = first :: second :: rest
  width : charWidth first = c.utf8Size
  fits : secondFits first second = true
  continuations : ∀ byte ∈ second :: rest, isContinuation byte = true

theorem utf8Size_eq : c.utf8Size =
    if c.val.toNat ≤ 0x7f then 1 else if c.val.toNat ≤ 0x7ff then 2 else if c.val.toNat ≤ 0xffff then 3 else 4 := rfl

theorem encodes (c : Char) :
    (∃ first, String.utf8EncodeChar c = [first] ∧ charWidth first = 1) ∨
      ∃ first second rest, Encodes c first second rest := by
  have valid : c.val.toNat < 0xD800 ∨ 0xDFFF < c.val.toNat ∧ c.val.toNat < 0x110000 := c.valid
  have size : c.utf8Size = _ := utf8Size_eq
  have low : ∀ n, isContinuation (.ofNat (n % 0x40 + 0x80)) = true := by
    intro n
    apply isContinuation_ofNat <;> omega
  by_cases one : c.val.toNat ≤ 0x7f
  · left
    refine ⟨.ofNat c.val.toNat, if_pos one, ?_⟩
    rw [charWidth_ofNat (by omega), if_pos (by omega)]
  right
  by_cases two : c.val.toNat ≤ 0x7ff
  · refine ⟨_, _, _, (if_neg one).trans (if_pos two), ?_, ?_, ?_⟩
    · rw [size, if_neg one, if_pos two, charWidth_ofNat (by omega), if_neg (by omega), if_neg (by omega),
        if_pos (by omega)]
    · apply secondFits_ofNat <;> omega
    · intro byte member
      rw [List.mem_singleton.mp member]
      exact low _
  by_cases three : c.val.toNat ≤ 0xffff
  · refine ⟨_, _, _, (if_neg one).trans ((if_neg two).trans (if_pos three)), ?_, ?_, ?_⟩
    · rw [size, if_neg one, if_neg two, if_pos three, charWidth_ofNat (by omega), if_neg (by omega),
        if_neg (by omega), if_neg (by omega), if_pos (by omega)]
    · apply secondFits_ofNat <;> omega
    · intro byte member
      rcases List.mem_pair.mp member with rfl | rfl
      all_goals exact low _
  · refine ⟨_, _, _, (if_neg one).trans ((if_neg two).trans (if_neg three)), ?_, ?_, ?_⟩
    · rw [size, if_neg one, if_neg two, if_neg three, charWidth_ofNat (by omega), if_neg (by omega),
        if_neg (by omega), if_neg (by omega), if_neg (by omega), if_pos (by omega)]
    · apply secondFits_ofNat <;> omega
    · intro byte member
      rcases List.mem_cons.mp member with rfl | member
      · exact low _
      rcases List.mem_pair.mp member with rfl | rfl
      all_goals exact low _

end Encoding

section Decoding

variable {c : Char} {s : Str} {byte : UInt8} {pending before after rest : List UInt8}

theorem decodeChar_utf8EncodeChar : decodeChar (String.utf8EncodeChar c) = c := by
  have decoded := @ByteArray.utf8DecodeChar?_utf8EncodeChar_append .empty c
  rw [ByteArray.append_empty] at decoded
  unfold decodeChar
  rw [decoded]
  rfl

theorem lossyFrom_cons : lossyFrom pending (byte :: rest) =
    (scan pending byte).1 ++ lossyFrom (scan pending byte).2 rest := rfl

theorem charWidth_continuation (continuation : isContinuation byte = true) : charWidth byte = 0 := by
  unfold isContinuation at continuation
  rw [Bool.and_eq_true, decide_eq_true_eq, decide_eq_true_eq] at continuation
  obtain ⟨low, high⟩ := continuation
  unfold charWidth
  rw [if_neg (UInt8.not_lt.mpr low), if_pos (UInt8.lt_trans high (by decide))]

theorem lossyFrom_continuations (continuations : ∀ byte ∈ before, isContinuation byte = true) :
    lossyFrom [] (before ++ rest) = List.replicate before.length replacement ++ lossyFrom [] rest := by
  induction before with
  | nil => rfl
  | cons byte before ih =>
    have width := charWidth_continuation (continuations byte mem_cons_self)
    have scanned : scan [] byte = ([replacement], []) := by
      unfold scan scanFirst
      rw [if_pos rfl, if_pos width]
    rw [cons_append, lossyFrom_cons, scanned, length_cons, replicate_succ,
      ih fun other member => continuations other (mem_cons_of_mem byte member)]
    rfl

theorem scan_first {first second : UInt8} (encodes : Encodes c first second rest) : scan [] first = ([], [first]) := by
  have positive : 2 ≤ c.utf8Size := by
    rw [← String.length_utf8EncodeChar, encodes.eq]
    exact Nat.le_add_left 2 _
  unfold scan scanFirst
  rw [if_pos rfl, encodes.width, if_neg (by omega), if_neg (by omega)]

theorem scan_pending {first second : UInt8} (encodes : Encodes c first second rest)
    (split : String.utf8EncodeChar c = pending ++ byte :: after) (begun : pending ≠ []) :
    scan pending byte = if after = [] then ([c], []) else ([], pending ++ [byte]) := by
  obtain ⟨eq, width, fits, continuations⟩ := encodes
  obtain ⟨head, tail, rfl⟩ := exists_cons_of_ne_nil begun
  rw [eq, cons_append, List.cons.injEq] at split
  obtain ⟨rfl, split⟩ := split
  have goesOn : continues (first :: tail) byte = true := by
    cases tail with
    | nil =>
      rw [nil_append, List.cons.injEq] at split
      exact split.1 ▸ fits
    | cons other tail =>
      apply continuations
      rw [split]
      exact mem_append_right _ mem_cons_self
  have whole : String.utf8EncodeChar c = (first :: tail ++ [byte]) ++ after := by
    rw [eq, split, append_assoc, cons_append]
    rfl
  have size : c.utf8Size = (first :: tail ++ [byte]).length + after.length := by
    rw [← String.length_utf8EncodeChar, whole, length_append]
  unfold scan
  rw [if_neg begun, if_pos goesOn, headD_cons, width, size]
  by_cases last : after = []
  · subst last
    rw [append_nil] at whole
    rw [length_nil, Nat.add_zero, if_pos rfl, if_pos rfl, ← whole, decodeChar_utf8EncodeChar]
  · have more := List.length_pos_iff.mpr last
    rw [if_neg last, if_neg (by omega)]

theorem lossyFrom_pending {first second : UInt8} (encodes : Encodes c first second rest)
    (split : String.utf8EncodeChar c = pending ++ after) (begun : pending ≠ []) (more : after ≠ [])
    (later : List UInt8) : lossyFrom pending (after ++ later) = c :: lossyFrom [] later := by
  induction after generalizing pending with
  | nil => exact absurd rfl more
  | cons byte after ih =>
    have scanned := scan_pending encodes split begun
    rw [cons_append, lossyFrom_cons, scanned]
    by_cases last : after = []
    · subst last
      rw [if_pos rfl]
      rfl
    · rw [if_neg last]
      have split' : String.utf8EncodeChar c = (pending ++ [byte]) ++ after := by
        rw [split, append_assoc, singleton_append]
      exact ih split' (append_ne_nil_of_right_ne_nil _ (cons_ne_nil _ _)) last

theorem lossyFrom_utf8EncodeChar : lossyFrom [] (String.utf8EncodeChar c ++ rest) = c :: lossyFrom [] rest := by
  rcases encodes c with ⟨first, eq, width⟩ | ⟨first, second, others, encodes⟩
  · have scanned : scan [] first = ([c], []) := by
      unfold scan scanFirst
      rw [if_pos rfl, width, if_neg (by decide), if_pos rfl, ← eq, decodeChar_utf8EncodeChar]
    rw [eq, singleton_append, lossyFrom_cons, scanned]
    rfl
  · have split : String.utf8EncodeChar c = [first] ++ second :: others := encodes.eq
    rw [split, append_assoc, singleton_append, lossyFrom_cons, scan_first encodes, nil_append]
    exact lossyFrom_pending encodes split (cons_ne_nil _ _) (cons_ne_nil _ _) rest

theorem lossyFrom_cut (split : String.utf8EncodeChar c = before ++ after) (begun : before ≠ []) (more : after ≠ []) :
    lossyFrom [] before = [replacement] := by
  rcases encodes c with ⟨first, eq, -⟩ | ⟨first, second, others, encodes⟩
  · have length := congrArg List.length (eq.symm.trans split)
    have left := List.length_pos_iff.mpr begun
    have right := List.length_pos_iff.mpr more
    rw [length_singleton, length_append] at length
    omega
  · have pends : ∀ pending read, before = pending ++ read → pending ≠ [] → lossyFrom pending read = [replacement] := by
      intro pending read
      induction read generalizing pending with
      | nil =>
        intro _ started
        exact if_neg started
      | cons byte read ih =>
        intro parts started
        have here : String.utf8EncodeChar c = pending ++ byte :: (read ++ after) := by
          rw [split, parts, append_assoc]
          rfl
        have scanned := scan_pending encodes here started
        rw [if_neg (append_ne_nil_of_right_ne_nil read more)] at scanned
        rw [lossyFrom_cons, scanned]
        apply ih
        · rw [parts, append_assoc, singleton_append]
        · exact append_ne_nil_of_right_ne_nil _ (cons_ne_nil _ _)
    obtain ⟨head, tail, rfl⟩ := exists_cons_of_ne_nil begun
    have same : first = head := by
      rw [encodes.eq, cons_append, List.cons.injEq] at split
      exact split.1
    subst same
    rw [lossyFrom_cons, scan_first encodes, nil_append]
    exact pends [first] tail rfl (cons_ne_nil _ _)

theorem fromUtf8Lossy_bytes_append : fromUtf8Lossy (bytes s ++ rest) = s ++ fromUtf8Lossy rest := by
  unfold fromUtf8Lossy
  induction s with
  | nil => rfl
  | cons c s ih => rw [bytes_cons, append_assoc, lossyFrom_utf8EncodeChar, ih, cons_append]

/-- Nothing is lost of what is UTF-8. -/
@[simp] theorem fromUtf8Lossy_bytes : fromUtf8Lossy (bytes s) = s := by
  have decoded := @fromUtf8Lossy_bytes_append s []
  rw [append_nil] at decoded
  rw [decoded]
  exact append_nil s

end Decoding

section Chunks

def cuts (start : ℕ) : List (List UInt8) → List ℕ
  | [] => [start]
  | chunk :: chunks => start :: cuts (start + chunk.length) chunks

def Torn (positions : List ℕ) (start : ℕ) (c : Char) : Prop := ∃ cut ∈ positions, start < cut ∧ cut < start + c.utf8Size

instance (positions : List ℕ) (start : ℕ) (c : Char) : Decidable (Torn positions start c) :=
  inferInstanceAs (Decidable (∃ cut ∈ positions, start < cut ∧ cut < start + c.utf8Size))

/-- The text with at least two replacement characters in the place of every torn one. -/
inductive Decoded (positions : List ℕ) : ℕ → Str → Str → Prop where
  | nil (start : ℕ) : Decoded positions start [] []
  | whole {start : ℕ} {c : Char} {s out : Str} (intact : ¬ Torn positions start c)
      (rest : Decoded positions (start + c.utf8Size) s out) : Decoded positions start (c :: s) (c :: out)
  | torn {start count : ℕ} {c : Char} {s out : Str} (torn : Torn positions start c) (twice : 2 ≤ count)
      (rest : Decoded positions (start + c.utf8Size) s out) :
      Decoded positions start (c :: s) (List.replicate count replacement ++ out)

variable {positions : List ℕ} {start cut : ℕ} {s out : Str} {chunks : List (List UInt8)}

theorem Decoded.cons_before (decoded : Decoded positions start s out) (before : cut ≤ start) :
    Decoded (cut :: positions) start s out := by
  induction decoded with
  | nil start => exact .nil start
  | whole intact rest ih =>
    apply Decoded.whole _ (ih (by omega))
    rintro ⟨other, member, above, below⟩
    rcases List.mem_cons.mp member with rfl | member
    · omega
    · exact intact ⟨other, member, above, below⟩
  | torn torn twice rest ih =>
    obtain ⟨other, member, inside⟩ := torn
    exact Decoded.torn ⟨other, mem_cons_of_mem cut member, inside⟩ twice (ih (by omega))

theorem le_of_mem_cuts (member : cut ∈ cuts start chunks) : start ≤ cut := by
  induction chunks generalizing start with
  | nil => exact Nat.le_of_eq (List.mem_singleton.mp member).symm
  | cons chunk chunks ih =>
    rcases List.mem_cons.mp member with rfl | member
    · exact Nat.le_refl _
    · exact Nat.le_trans (Nat.le_add_right _ _) (ih member)

theorem start_mem_cuts : start ∈ cuts start chunks := by
  cases chunks with
  | nil => exact mem_singleton_self start
  | cons chunk chunks => exact mem_cons_self

theorem decoded_chunk {chunk : List UInt8}
    (later : ∀ (start : ℕ) (tail : List UInt8) (s : Str), chunks.flatten = tail ++ bytes s →
      (∀ byte ∈ tail, isContinuation byte = true) →
      ∃ out, chunks.flatMap fromUtf8Lossy = List.replicate tail.length replacement ++ out ∧
        Decoded (cuts start chunks) (start + tail.length) s out)
    (content : chunk ++ chunks.flatten = bytes s) :
    ∃ out, fromUtf8Lossy chunk ++ chunks.flatMap fromUtf8Lossy = out ∧
      Decoded (cuts (start + chunk.length) chunks) start s out := by
  induction s generalizing chunk start with
  | nil =>
    obtain ⟨rfl, nothing⟩ := List.append_eq_nil_iff.mp content
    obtain ⟨out, decoded, shape⟩ := later start [] [] nothing (fun _ member => absurd member not_mem_nil)
    exact ⟨out, decoded, shape⟩
  | cons c s ih =>
    by_cases nothing : chunk = []
    · subst nothing
      obtain ⟨out, decoded, shape⟩ := later start [] (c :: s) content (fun _ member => absurd member not_mem_nil)
      exact ⟨out, decoded, shape⟩
    have size := String.length_utf8EncodeChar c
    have begins : ∀ rest, chunk = String.utf8EncodeChar c ++ rest → rest ++ chunks.flatten = bytes s →
        ∃ out, fromUtf8Lossy chunk ++ chunks.flatMap fromUtf8Lossy = out ∧
          Decoded (cuts (start + chunk.length) chunks) start (c :: s) out := by
      intro rest split content
      obtain ⟨out, decoded, shape⟩ := @ih (start + c.utf8Size) rest content
      have length : start + chunk.length = start + c.utf8Size + rest.length := by
        rw [split, length_append, size]
        omega
      refine ⟨c :: out, ?_, ?_⟩
      · unfold fromUtf8Lossy at decoded ⊢
        rw [split, lossyFrom_utf8EncodeChar, cons_append, decoded]
      · rw [length]
        apply Decoded.whole _ shape
        rintro ⟨cut, member, above, below⟩
        have := le_of_mem_cuts member
        omega
    rw [bytes_cons] at content
    rcases List.append_eq_append_iff.mp content with ⟨tail, split, after⟩ | ⟨rest, split, after⟩
    · by_cases ends : tail = []
      · subst ends
        rw [append_nil] at split
        exact begins [] (by rw [split, append_nil]) after
      · have continuations : ∀ byte ∈ tail, isContinuation byte = true := by
          intro byte member
          rcases encodes c with ⟨first, eq, -⟩ | ⟨first, second, others, encodes⟩
          · have length := congrArg List.length (eq.symm.trans split)
            have left := List.length_pos_iff.mpr nothing
            have right := List.length_pos_iff.mpr ends
            rw [length_singleton, length_append] at length
            omega
          · obtain ⟨head, others', rfl⟩ := exists_cons_of_ne_nil nothing
            rw [encodes.eq, cons_append, List.cons.injEq] at split
            apply encodes.continuations
            rw [split.2]
            exact mem_append_right _ member
        obtain ⟨out, decoded, shape⟩ := later (start + chunk.length) tail s after continuations
        have length : c.utf8Size = chunk.length + tail.length := by
          rw [← size, split, length_append]
        have left := List.length_pos_iff.mpr nothing
        have right := List.length_pos_iff.mpr ends
        refine ⟨List.replicate (1 + tail.length) replacement ++ out, ?_, ?_⟩
        · unfold fromUtf8Lossy at decoded ⊢
          rw [lossyFrom_cut split nothing ends, decoded, replicate_add, append_assoc]
          rfl
        · apply Decoded.torn ⟨start + chunk.length, start_mem_cuts, by omega, by omega⟩ (by omega)
          rw [length, ← Nat.add_assoc]
          exact shape
    · exact begins rest split after.symm

theorem decoded_chunks_from (chunks : List (List UInt8)) :
    ∀ (start : ℕ) (tail : List UInt8) (s : Str), chunks.flatten = tail ++ bytes s →
      (∀ byte ∈ tail, isContinuation byte = true) →
      ∃ out, chunks.flatMap fromUtf8Lossy = List.replicate tail.length replacement ++ out ∧
        Decoded (cuts start chunks) (start + tail.length) s out := by
  induction chunks with
  | nil =>
    intro start tail s content _
    obtain ⟨rfl, nothing⟩ := List.append_eq_nil_iff.mp content.symm
    cases s with
    | nil => exact ⟨[], rfl, .nil _⟩
    | cons c s =>
      rw [bytes_cons, append_eq_nil_iff] at nothing
      exact absurd nothing.1 String.utf8EncodeChar_ne_nil
  | cons chunk chunks ih =>
    intro start tail s content continuations
    rw [flatten_cons] at content
    rcases List.append_eq_append_iff.mp content with ⟨more, split, after⟩ | ⟨rest, split, after⟩
    · -- The chunk ends before the character does.
      obtain ⟨out, decoded, shape⟩ := ih (start + chunk.length) more s after fun byte member =>
        continuations byte (split ▸ mem_append_right _ member)
      have replaced := @lossyFrom_continuations chunk [] fun byte member =>
        continuations byte (split ▸ mem_append_left _ member)
      rw [append_nil] at replaced
      refine ⟨out, ?_, ?_⟩
      · rw [flatMap_cons, decoded, split, length_append, replicate_add, append_assoc]
        unfold fromUtf8Lossy
        rw [replaced, show lossyFrom [] [] = [] from rfl, append_nil]
      · rw [split, length_append, ← Nat.add_assoc]
        exact shape.cons_before (by omega)
    · obtain ⟨out, decoded, shape⟩ := @decoded_chunk (start + tail.length) s chunks rest ih after.symm
      have replaced := @lossyFrom_continuations tail rest continuations
      refine ⟨out, ?_, ?_⟩
      · rw [flatMap_cons, split]
        unfold fromUtf8Lossy at decoded ⊢
        rw [replaced, append_assoc, decoded]
      · rw [split]
        show Decoded (start :: cuts (start + (tail ++ rest).length) chunks) (start + tail.length) s out
        rw [length_append, ← Nat.add_assoc]
        exact shape.cons_before (Nat.le_add_right _ _)

theorem decoded_chunks (content : chunks.flatten = bytes s) :
    Decoded (cuts 0 chunks) 0 s (chunks.flatMap fromUtf8Lossy) := by
  obtain ⟨out, decoded, shape⟩ := decoded_chunks_from chunks 0 [] s content fun _ member =>
    absurd member not_mem_nil
  rw [decoded]
  exact shape

end Chunks

end Warp.Str
