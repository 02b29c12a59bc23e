import Warp.Lib.ByteStream

namespace Warp.Remote

open ByteStream List

def maxMessageSize : ℕ := 64 * 1024 * 1024

structure RequestId where
  id : String
deriving DecidableEq

inductive ProtocolError (δ : Type) where
  | io (kind : ErrorKind)
  | decode (error : δ) (requestId : Option RequestId)
  | unexpectedEof
  | messageTooLarge (size max : ℕ)
deriving DecidableEq

namespace ProtocolError

variable {δ : Type}

def isReadRecoverable : ProtocolError δ → Bool
  | .decode .. => true
  | .io _ => false
  | .unexpectedEof => false
  | .messageTooLarge .. => false

def isWriteRecoverable : ProtocolError δ → Bool
  | .messageTooLarge .. => true
  | .io _ => false
  | .decode .. => false
  | .unexpectedEof => false

end ProtocolError

structure Message (μ δ : Type) where
  encodeToVec : μ → List UInt8
  decode : List UInt8 → Except δ μ

def Message.Inverse {μ δ : Type} (message : Message μ δ) : Prop :=
  ∀ msg, message.decode (message.encodeToVec msg) = .ok msg

/-- The value wraps around at 64 bits. -/
def decodeVarint.loop : ℕ → UInt64 → List UInt8 → Option (ℕ × ℕ)
  | _, _, [] => none
  | i, result, byte :: buf =>
    if i ≥ 10 then none
    else
      let result := result ||| ((byte &&& 0x7F).toUInt64 <<< UInt64.ofNat (i * 7))
      if byte &&& 0x80 = 0 then some (result.toNat, i + 1) else loop (i + 1) result buf

def decodeVarint (buf : List UInt8) : Option (ℕ × ℕ) := decodeVarint.loop 0 0 buf

def tryExtractRequestId (buf : List UInt8) : Option String :=
  match buf with
  | 0x0a :: buf => do
    let (len, consumed) ← decodeVarint buf
    let buf := buf.drop consumed
    if buf.length < len then none
    else do
      let s ← String.fromUTF8? ⟨(buf.take len).toArray⟩
      if s.isEmpty then none else some s
  | _ => none

def toLeBytes (n : ℕ) : List UInt8 := [.ofNat n, .ofNat (n / 2 ^ 8), .ofNat (n / 2 ^ 16), .ofNat (n / 2 ^ 24)]

def fromLeBytes (bytes : List UInt8) : ℕ := bytes.foldr (fun byte rest => byte.toNat + 2 ^ 8 * rest) 0

variable {μ δ : Type}

def readError (kind : ErrorKind) : ProtocolError δ :=
  if kind = .unexpectedEof then .unexpectedEof else .io kind

def decodePayload (message : Message μ δ) (buf : List UInt8) : Except (ProtocolError δ) μ :=
  (message.decode buf).mapError fun error => .decode error ((tryExtractRequestId buf).map RequestId.mk)

def readMessage (message : Message μ δ) (reader : Reader) : Except (ProtocolError δ) μ × Reader :=
  match reader.readExact 4 with
  | (.error kind, reader) => (.error (readError kind), reader)
  | (.ok lenBuf, reader) =>
    let len := fromLeBytes lenBuf
    if len > maxMessageSize then (.error (.messageTooLarge len maxMessageSize), reader)
    else
      match reader.readExact len with
      | (.error kind, reader) => (.error (readError kind), reader)
      | (.ok buf, reader) => (decodePayload message buf, reader)

/-- The length is cast to 32 bits. -/
def writeMessage (message : Message μ δ) (writer : Writer) (msg : μ) : Except (ProtocolError δ) Unit × Writer :=
  let encoded := message.encodeToVec msg
  if encoded.length > maxMessageSize then (.error (.messageTooLarge encoded.length maxMessageSize), writer)
  else
    match writer.writeAll (toLeBytes (encoded.length % 2 ^ 32)) with
    | (.error kind, writer) => (.error (.io kind), writer)
    | (.ok (), writer) =>
      match writer.writeAll encoded with
      | (.error kind, writer) => (.error (.io kind), writer)
      | (.ok (), writer) => (writer.flush.mapError .io, writer)

/-- A read loop, which ends at the first error that is not recoverable. -/
def readLoop (message : Message μ δ) : ℕ → Reader → List (Except (ProtocolError δ) μ)
  | 0, _ => []
  | fuel + 1, reader =>
    match readMessage message reader with
    | (.ok msg, reader) => .ok msg :: readLoop message fuel reader
    | (.error e, reader) => .error e :: if e.isReadRecoverable then readLoop message fuel reader else []

def writeMessages (message : Message μ δ) : Writer → List μ → List (Except (ProtocolError δ) Unit) × Writer
  | writer, [] => ([], writer)
  | writer, msg :: msgs =>
    let (result, writer) := writeMessage message writer msg
    let (results, writer) := writeMessages message writer msgs
    (result :: results, writer)

section Frames

def frame (payload : List UInt8) : List UInt8 := toLeBytes payload.length ++ payload

def Truncated (bytes : List UInt8) : Prop :=
  ∃ payload missing, payload.length ≤ maxMessageSize ∧ missing ≠ [] ∧ bytes ++ missing = frame payload

@[simp] theorem length_toLeBytes (n : ℕ) : (toLeBytes n).length = 4 := rfl

theorem fromLeBytes_toLeBytes {n : ℕ} (small : n ≤ maxMessageSize) : fromLeBytes (toLeBytes n) = n := by
  unfold maxMessageSize at small
  simp only [fromLeBytes, toLeBytes, foldr_cons, foldr_nil, UInt8.toNat_ofNat']
  omega

variable {message : Message μ δ} {reader : Reader} {payload later : List UInt8}

theorem readMessage_frame (small : payload.length ≤ maxMessageSize)
    (delivers : reader.bytes = some (frame payload ++ later)) :
    ∃ rest, readMessage message reader = (decodePayload message payload, rest) ∧ rest.bytes = some later := by
  unfold frame at delivers
  rw [append_assoc] at delivers
  obtain ⟨afterHeader, readHeader, delivers⟩ := Reader.readExact_append delivers
  obtain ⟨rest, readPayload, delivers⟩ := Reader.readExact_append delivers
  refine ⟨rest, ?_, delivers⟩
  have header : reader.readExact 4 = (.ok (toLeBytes payload.length), afterHeader) := readHeader
  unfold readMessage
  rw [header]
  dsimp only
  rw [fromLeBytes_toLeBytes small, if_neg (by omega), readPayload]

theorem readMessage_truncated {bytes : List UInt8} (truncated : Truncated bytes)
    (delivers : reader.bytes = some bytes) :
    ∃ rest, readMessage message reader = (.error .unexpectedEof, rest) := by
  obtain ⟨payload, missing, small, some_missing, whole⟩ := truncated
  have positive : 0 < missing.length := List.length_pos_iff.mpr some_missing
  have lengths := congrArg List.length whole
  unfold frame at whole lengths
  simp only [length_append, length_toLeBytes] at lengths
  unfold readMessage
  by_cases inHeader : bytes.length < 4
  · obtain ⟨rest, read⟩ := Reader.readExact_short delivers inHeader
    refine ⟨rest, ?_⟩
    rw [read]
    rfl
  · rcases List.append_eq_append_iff.mp whole with ⟨tail, header, -⟩ | ⟨partly, rfl, -⟩
    · have bound := congrArg List.length header
      simp only [length_append, length_toLeBytes] at bound
      have exact : tail = [] := List.length_eq_zero_iff.mp (by omega)
      subst exact
      rw [append_nil] at header
      subst header
      rw [← append_nil (toLeBytes payload.length)] at delivers
      obtain ⟨afterHeader, readHeader, delivers⟩ := Reader.readExact_append delivers
      obtain ⟨rest, read⟩ := @Reader.readExact_short _ _ payload.length delivers
        (by simp only [length_toLeBytes] at lengths; simp only [length_nil]; omega)
      have header : reader.readExact 4 = (.ok (toLeBytes payload.length), afterHeader) := readHeader
      refine ⟨rest, ?_⟩
      rw [header]
      dsimp only
      rw [fromLeBytes_toLeBytes small, if_neg (by omega), read]
      rfl
    · obtain ⟨afterHeader, readHeader, delivers⟩ := Reader.readExact_append delivers
      obtain ⟨rest, read⟩ := @Reader.readExact_short _ _ payload.length delivers
        (by simp only [length_append, length_toLeBytes] at lengths; omega)
      have header : reader.readExact 4 = (.ok (toLeBytes payload.length), afterHeader) := readHeader
      refine ⟨rest, ?_⟩
      rw [header]
      dsimp only
      rw [fromLeBytes_toLeBytes small, if_neg (by omega), read]
      rfl

theorem decodePayload_cases (message : Message μ δ) (payload : List UInt8) :
    (∃ msg, message.decode payload = .ok msg ∧ decodePayload message payload = .ok msg) ∨
      ∃ error : ProtocolError δ, (∃ cause, message.decode payload = .error cause) ∧
        decodePayload message payload = .error error ∧ error.isReadRecoverable = true := by
  unfold decodePayload
  cases decoded : message.decode payload with
  | ok msg => exact .inl ⟨msg, rfl, rfl⟩
  | error cause => exact .inr ⟨_, ⟨cause, rfl⟩, rfl, rfl⟩

theorem readLoop_frames {payloads : List (List UInt8)} {bytes : List UInt8}
    (small : ∀ payload ∈ payloads, payload.length ≤ maxMessageSize) (truncated : Truncated bytes)
    (delivers : reader.bytes = some (payloads.flatMap frame ++ bytes)) {fuel : ℕ} (enough : payloads.length < fuel) :
    readLoop message fuel reader = payloads.map (decodePayload message) ++ [.error .unexpectedEof] := by
  induction payloads generalizing reader fuel with
  | nil =>
    obtain ⟨fuel, rfl⟩ : ∃ n, fuel = n + 1 := ⟨fuel - 1, by simp only [length_nil] at enough; omega⟩
    obtain ⟨rest, read⟩ := readMessage_truncated truncated delivers
    rw [readLoop, read]
    rfl
  | cons payload payloads ih =>
    rw [length_cons] at enough
    obtain ⟨fuel, rfl⟩ : ∃ n, fuel = n + 1 := ⟨fuel - 1, by omega⟩
    rw [flatMap_cons, append_assoc] at delivers
    obtain ⟨rest, read, delivers⟩ := readMessage_frame (small payload mem_cons_self) delivers
    have loop := ih (fun other member => small other (mem_cons_of_mem _ member)) delivers
      (show payloads.length < fuel by omega)
    rw [readLoop, read, map_cons, cons_append]
    rcases decodePayload_cases message payload with ⟨msg, -, decoded⟩ | ⟨error, -, decoded, recoverable⟩
    · rw [decoded]
      dsimp only
      rw [loop]
    · rw [decoded]
      dsimp only
      rw [if_pos recoverable, loop]

theorem truncated_nil : Truncated [] := ⟨[], toLeBytes 0, by decide, by decide, rfl⟩

end Frames

section Writing

variable {message : Message μ δ} {writer next : Writer}

theorem writeMessage_tooLarge {msg : μ} (large : (message.encodeToVec msg).length > maxMessageSize) :
    writeMessage message writer msg =
      (.error (.messageTooLarge (message.encodeToVec msg).length maxMessageSize), writer) := by
  unfold writeMessage
  exact if_pos large

theorem writeMessage_ok {msg : μ} (wrote : writeMessage message writer msg = (.ok (), next)) :
    (message.encodeToVec msg).length ≤ maxMessageSize ∧
      next.written = writer.written ++ frame (message.encodeToVec msg) := by
  unfold writeMessage at wrote
  dsimp only at wrote
  split at wrote
  · cases wrote
  · rename_i fits
    have small : (message.encodeToVec msg).length ≤ maxMessageSize := Nat.le_of_not_lt fits
    refine ⟨small, ?_⟩
    have bound := small
    unfold maxMessageSize at bound
    rw [Nat.mod_eq_of_lt (by omega)] at wrote
    split at wrote
    · cases wrote
    · rename_i middle wroteHeader
      split at wrote
      · cases wrote
      · rename_i last wrotePayload
        injection wrote with _ same
        subst same
        rw [Writer.writeAll_ok wrotePayload, Writer.writeAll_ok wroteHeader, append_assoc]
        rfl

theorem writeMessages_ok {msgs : List μ} (wrote : writeMessages message writer msgs = (msgs.map fun _ => .ok (), next)) :
    (∀ msg ∈ msgs, (message.encodeToVec msg).length ≤ maxMessageSize) ∧
      next.written = writer.written ++ (msgs.map message.encodeToVec).flatMap frame := by
  induction msgs generalizing writer with
  | nil =>
    injection wrote with _ same
    subst same
    exact ⟨fun _ member => absurd member not_mem_nil, (append_nil _).symm⟩
  | cons msg msgs ih =>
    rw [writeMessages] at wrote
    dsimp only at wrote
    injection wrote with results same
    injection results with first rest
    have head : writeMessage message writer msg = (.ok (), (writeMessage message writer msg).2) :=
      Prod.ext first rfl
    obtain ⟨small, written⟩ := writeMessage_ok head
    obtain ⟨smaller, later⟩ := ih (Prod.ext rest same)
    refine ⟨?_, ?_⟩
    · intro other member
      rcases List.mem_cons.mp member with rfl | member
      · exact small
      · exact smaller other member
    · rw [later, written, map_cons, flatMap_cons, append_assoc]

end Writing

def byteMessage : Message UInt8 Unit where
  encodeToVec byte := [byte]
  decode buf := match buf with
    | [byte] => .ok byte
    | _ => .error ()

end Warp.Remote
