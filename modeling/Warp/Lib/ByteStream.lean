import Mathlib.Tactic

namespace Warp.ByteStream

open List

inductive ErrorKind where
  | unexpectedEof
  | connectionReset
  | brokenPipe
  | other
deriving DecidableEq

inductive Arrival where
  | data (first : UInt8) (rest : List UInt8)
  | failure (kind : ErrorKind)
deriving DecidableEq

abbrev Reader := List Arrival

namespace Reader

/-- The bytes that a reader delivers if none of its polls fails. -/
def bytes : Reader → Option (List UInt8)
  | [] => some []
  | .data first rest :: later => (bytes later).map (first :: rest ++ ·)
  | .failure _ :: _ => none

/-- Polls until `count` bytes have been read. What a poll finds beyond them stays for the next one. -/
def readExact : ℕ → Reader → Except ErrorKind (List UInt8) × Reader
  | 0, reader => (.ok [], reader)
  | _ + 1, [] => (.error .unexpectedEof, [])
  | _ + 1, .failure kind :: later => (.error kind, later)
  | count + 1, .data first rest :: later =>
    match rest.drop count with
    | [] =>
      let (result, reader) := readExact (count - rest.length) later
      (result.map (first :: rest ++ ·), reader)
    | next :: left => (.ok (first :: rest.take count), .data next left :: later)

theorem bytes_cons {first : UInt8} {rest stream : List UInt8} {later : Reader}
    (delivers : bytes (.data first rest :: later) = some stream) :
    ∃ suffix, bytes later = some suffix ∧ stream = first :: rest ++ suffix := by
  obtain ⟨suffix, delivered, rfl⟩ := Option.map_eq_some_iff.mp delivers
  exact ⟨suffix, delivered, rfl⟩

theorem readExact_append {reader : Reader} {wanted later : List UInt8}
    (delivers : bytes reader = some (wanted ++ later)) :
    ∃ rest, readExact wanted.length reader = (.ok wanted, rest) ∧ bytes rest = some later := by
  induction reader generalizing wanted with
  | nil =>
    have nothing : wanted = [] ∧ later = [] := List.append_eq_nil_iff.mp (Option.some_inj.mp delivers).symm
    obtain ⟨rfl, rfl⟩ := nothing
    exact ⟨[], rfl, rfl⟩
  | cons arrival polls ih =>
    cases wanted with
    | nil => exact ⟨arrival :: polls, rfl, delivers⟩
    | cons head tail =>
      cases arrival with
      | failure kind => cases delivers
      | data first rest =>
        obtain ⟨suffix, delivered, split⟩ := bytes_cons delivers
        injection split with sameHead sameTail
        subst sameHead
        have sameTail : tail ++ later = rest ++ suffix := sameTail
        rw [length_cons, readExact]
        rcases List.append_eq_append_iff.mp sameTail with ⟨beyond, rfl, rfl⟩ | ⟨missing, rfl, rfl⟩
        · rw [drop_left, take_left]
          cases beyond with
          | nil =>
            refine ⟨polls, ?_, delivered⟩
            simp only [append_nil, Nat.sub_self, readExact, Except.map]
          | cons next left =>
            refine ⟨.data next left :: polls, rfl, ?_⟩
            rw [bytes, delivered]
            rfl
        · obtain ⟨final, read, kept⟩ := ih delivered
          rw [drop_eq_nil_of_le (length_append ▸ Nat.le_add_right _ _)]
          refine ⟨final, ?_, kept⟩
          rw [length_append, Nat.add_sub_cancel_left]
          dsimp only
          rw [read]
          rfl

theorem readExact_short {reader : Reader} {stream : List UInt8} {count : ℕ}
    (delivers : bytes reader = some stream) (short : stream.length < count) :
    ∃ rest, readExact count reader = (.error .unexpectedEof, rest) := by
  induction reader generalizing count stream with
  | nil =>
    cases count with
    | zero => exact absurd short (Nat.not_lt_zero _)
    | succ count => exact ⟨[], rfl⟩
  | cons arrival polls ih =>
    cases count with
    | zero => exact absurd short (Nat.not_lt_zero _)
    | succ count =>
      cases arrival with
      | failure kind => cases delivers
      | data first rest =>
        obtain ⟨suffix, delivered, rfl⟩ := bytes_cons delivers
        rw [length_append, length_cons] at short
        obtain ⟨final, read⟩ := @ih _ (count - rest.length) delivered (by omega)
        refine ⟨final, ?_⟩
        rw [readExact, drop_eq_nil_of_le (by omega)]
        dsimp only
        rw [read]
        rfl

end Reader

/-- A sink that takes `room` more bytes, and then fails. Without a bound it takes all. -/
structure Writer where
  written : List UInt8
  room : Option ℕ
  failure : ErrorKind
  flushFailure : Option ErrorKind
deriving DecidableEq

namespace Writer

def new : Writer := ⟨[], none, .other, none⟩

def writeAll (self : Writer) (bytes : List UInt8) : Except ErrorKind Unit × Writer :=
  match self.room with
  | none => (.ok (), { self with written := self.written ++ bytes })
  | some room =>
    let accepted := { self with written := self.written ++ bytes.take room, room := some (room - bytes.length) }
    if bytes.length ≤ room then (.ok (), accepted) else (.error self.failure, accepted)

def flush (self : Writer) : Except ErrorKind Unit :=
  match self.flushFailure with
  | none => .ok ()
  | some kind => .error kind

theorem writeAll_ok {writer next : Writer} {bytes : List UInt8} (wrote : writer.writeAll bytes = (.ok (), next)) :
    next.written = writer.written ++ bytes := by
  unfold writeAll at wrote
  split at wrote
  · injection wrote with _ same
    rw [← same]
  · rename_i room bounded
    dsimp only at wrote
    split at wrote
    · rename_i fits
      injection wrote with _ same
      rw [← same]
      dsimp only
      rw [take_of_length_le fits]
    · cases wrote

end Writer

end Warp.ByteStream
