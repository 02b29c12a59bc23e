import Warp.Lib.Checked
import Warp.Remote.Protocol

namespace Warp.Remote.Wire

open List Option

/-! The extraction of the request id, with the slices and the shift that may panic. -/

def decodeVarint.loop : ℕ → ℕ → List UInt8 → Option (Option (ℕ × ℕ))
  | _, _, [] => some none
  | i, result, byte :: buf =>
    if i ≥ 10 then some none
    else
      (Checked.shiftLeft 64 (byte &&& 0x7F).toNat (i * 7)).bind fun shifted =>
        if byte &&& 0x80 = 0 then some (some (result ||| shifted, i + 1)) else loop (i + 1) (result ||| shifted) buf

def decodeVarint (buf : List UInt8) : Option (Option (ℕ × ℕ)) := decodeVarint.loop 0 0 buf

def tryExtractRequestId (buf : List UInt8) : Option (Option String) :=
  if buf.head? = some 0x0a then
    (Checked.sliceFrom buf 1).bind fun buf =>
      Checked.early (decodeVarint buf) fun (len, consumed) =>
        (Checked.sliceFrom buf consumed).bind fun buf =>
          if buf.length < len then some none
          else
            (Checked.sliceTo buf len).map fun bytes =>
              (String.fromUTF8? ⟨bytes.toArray⟩).bind fun s => if s.isEmpty then none else some s
  else some none

/-- Seven bits a byte, the lowest first; every byte but the last one has its highest bit set. -/
def encodeVarint (n : ℕ) : List UInt8 :=
  if n < 128 then [.ofNat n] else .ofNat (n % 128 + 128) :: encodeVarint (n / 128)
termination_by n
decreasing_by omega

def encodeRequestId (s : String) : List UInt8 := 0x0a :: encodeVarint s.utf8ByteSize ++ s.toByteArray.data.toList

theorem decodeVarint.loop_consumed {i result len consumed : ℕ} {buf : List UInt8}
    (decoded : decodeVarint.loop i result buf = some (some (len, consumed))) : consumed ≤ i + buf.length := by
  induction buf generalizing i result with
  | nil => cases decoded
  | cons byte buf ih =>
    rw [loop] at decoded
    by_cases long : i ≥ 10
    · rw [if_pos long] at decoded
      cases decoded
    · rw [if_neg long] at decoded
      obtain ⟨shifted, -, decoded⟩ := Option.bind_eq_some_iff.mp decoded
      rw [length_cons]
      split at decoded
      · simp only [Option.some.injEq, Prod.mk.injEq] at decoded
        omega
      · have rest := ih decoded
        omega

theorem decodeVarint.loop_eq {i : ℕ} {result : UInt64} {buf : List UInt8} :
    decodeVarint.loop i result.toNat buf = some (Remote.decodeVarint.loop i result buf) := by
  induction buf generalizing i result with
  | nil => rfl
  | cons byte buf ih =>
    rw [loop, Remote.decodeVarint.loop]
    by_cases long : i ≥ 10
    · rw [if_pos long, if_pos long]
    · have shifted : (result ||| ((byte &&& 0x7F).toUInt64 <<< UInt64.ofNat (i * 7))).toNat =
          result.toNat ||| (byte &&& 0x7F).toNat * 2 ^ (i * 7) % 2 ^ 64 := by
        have small : (UInt64.ofNat (i * 7)).toNat % 64 = i * 7 := by
          rw [UInt64.toNat_ofNat']
          omega
        rw [UInt64.toNat_or, UInt64.toNat_shiftLeft, small, Nat.shiftLeft_eq, UInt8.toNat_toUInt64]
      rw [if_neg long, if_neg long, Checked.shiftLeft, if_pos (by omega), bind_some, ← shifted, ih]
      dsimp only
      split <;> rfl

theorem decodeVarint_eq (buf : List UInt8) : decodeVarint buf = some (Remote.decodeVarint buf) := @decodeVarint.loop_eq 0 0 buf

theorem tryExtractRequestId_eq (buf : List UInt8) : tryExtractRequestId buf = some (Remote.tryExtractRequestId buf) := by
  cases buf with
  | nil => rfl
  | cons tag buf =>
    rw [tryExtractRequestId, List.head?_cons]
    by_cases isTag : tag = 0x0a
    · subst isTag
      rw [if_pos rfl, Checked.sliceFrom_eq (by simp), bind_some, drop_one, tail_cons, decodeVarint_eq,
        Remote.tryExtractRequestId]
      cases decoded : Remote.decodeVarint buf with
      | none => rfl
      | some parts =>
        obtain ⟨len, consumed⟩ := parts
        have inside : consumed ≤ 0 + buf.length :=
          decodeVarint.loop_consumed ((decodeVarint_eq buf).trans (congrArg some decoded))
        show (Checked.sliceFrom buf consumed).bind _ = _
        rw [Checked.sliceFrom_eq (by omega), bind_some]
        dsimp only [bind_eq_bind, bind_some]
        by_cases short : (buf.drop consumed).length < len
        · rw [if_pos short, if_pos short]
        · rw [if_neg short, if_neg short, Checked.sliceTo_eq (by omega)]
          rfl
    · rw [if_neg fun same => isTag (Option.some.inj same)]
      unfold Remote.tryExtractRequestId
      split
      next same =>
        rw [(List.cons.inj same).1] at isTag
        exact absurd rfl isTag
      next => rfl

theorem payload_bits {n : ℕ} (byte : n < 256) : (UInt8.ofNat n &&& 0x7F).toNat = n % 128 := by
  rw [UInt8.toNat_and, UInt8.toNat_ofNat', Nat.mod_eq_of_lt byte]
  exact Nat.and_two_pow_sub_one_eq_mod n 7

theorem continuation_bit (n : Fin 256) : UInt8.ofNat n.val &&& 0x80 = 0 ↔ n.val < 128 := by
  revert n
  decide +kernel

theorem decodeVarint.loop_encode {i result n : ℕ} (early : i ≤ 9) (low : result < 2 ^ (i * 7)) (small : n < 2 ^ (64 - i * 7))
    (rest : List UInt8) :
    decodeVarint.loop i result (encodeVarint n ++ rest) = some (some (result + n * 2 ^ (i * 7), i + (encodeVarint n).length)) := by
  induction n using Nat.strongRecOn generalizing i result with
  | ind n ih =>
    have word : 2 ^ (64 - i * 7) * 2 ^ (i * 7) = 2 ^ 64 := by
      rw [← Nat.pow_add]
      congr 1
      omega
    have shifts (bits : ℕ) (less : bits ≤ n) : bits * 2 ^ (i * 7) % 2 ^ 64 = bits * 2 ^ (i * 7) := by
      apply Nat.mod_eq_of_lt
      rw [← word]
      exact Nat.mul_lt_mul_of_pos_right (Nat.lt_of_le_of_lt less small) (Nat.two_pow_pos _)
    have adds (bits : ℕ) : result ||| bits * 2 ^ (i * 7) = result + bits * 2 ^ (i * 7) := by
      rw [Nat.or_comm, Nat.mul_comm, ← Nat.two_pow_add_eq_or_of_lt low, Nat.add_comm]
    rw [encodeVarint]
    by_cases single : n < 128
    · have ends := (continuation_bit ⟨n, by omega⟩).mpr single
      rw [if_pos single, singleton_append, loop, if_neg (by omega), payload_bits (by omega), Checked.shiftLeft,
        if_pos (by omega), bind_some, Nat.mod_eq_of_lt single, shifts n (Nat.le_refl n), adds, if_pos ends]
      rfl
    · have goesOn : ¬ UInt8.ofNat (n % 128 + 128) &&& 0x80 = 0 := fun zero =>
        absurd ((continuation_bit ⟨n % 128 + 128, by omega⟩).mp zero) (by dsimp only; omega)
      have room : 7 < 64 - i * 7 := by
        by_contra full
        have few : 2 ^ (64 - i * 7) ≤ 2 ^ 7 := Nat.pow_le_pow_right Nat.two_pos (by omega)
        omega
      have nextSmall : n / 128 < 2 ^ (64 - (i + 1) * 7) := by
        apply Nat.div_lt_of_lt_mul
        rw [show 128 = 2 ^ 7 from rfl, ← Nat.pow_add]
        exact Nat.lt_of_lt_of_le small (Nat.pow_le_pow_right Nat.two_pos (by omega))
      have power : 2 ^ ((i + 1) * 7) = 128 * 2 ^ (i * 7) := by
        rw [Nat.add_mul, Nat.pow_add, Nat.mul_comm]
      have nextLow : result + n % 128 * 2 ^ (i * 7) < 2 ^ ((i + 1) * 7) := by
        have bits : (n % 128 + 1) * 2 ^ (i * 7) ≤ 128 * 2 ^ (i * 7) :=
          Nat.mul_le_mul_right _ (Nat.mod_lt n (by decide))
        rw [Nat.add_one_mul] at bits
        omega
      have value : result + n % 128 * 2 ^ (i * 7) + n / 128 * 2 ^ ((i + 1) * 7) = result + n * 2 ^ (i * 7) := by
        rw [power, ← Nat.mul_assoc, Nat.add_assoc, ← Nat.add_mul, Nat.mul_comm (n / 128), Nat.mod_add_div]
      rw [if_neg single, cons_append, loop, if_neg (by omega), payload_bits (by omega), Nat.add_mod_right, Nat.mod_mod,
        Checked.shiftLeft, if_pos (by omega), bind_some, shifts _ (Nat.mod_le n 128), adds, if_neg goesOn,
        ih (n / 128) (by omega) (by omega) nextLow nextSmall, value, length_cons]
      congr 3
      omega

theorem decodeVarint_encode {n : ℕ} (small : n < 2 ^ 64) (rest : List UInt8) :
    decodeVarint (encodeVarint n ++ rest) = some (some (n, (encodeVarint n).length)) := by
  have decoded := @decodeVarint.loop_encode 0 0 n (by decide) (by decide) small rest
  rw [decodeVarint, decoded]
  simp

/-- No buffer panics, and the request id is found before whatever comes after it. -/
theorem tryExtractRequestId_recovers :
    (∀ buf, ∃ result, tryExtractRequestId buf = some result) ∧
      ∀ (s : String) (rest : List UInt8), s ≠ "" → s.utf8ByteSize < 2 ^ 63 →
        tryExtractRequestId (encodeRequestId s ++ rest) = some (some s) := by
  refine ⟨fun buf => ⟨_, tryExtractRequestId_eq buf⟩, fun s rest nonempty small => ?_⟩
  have length : s.toByteArray.data.toList.length = s.utf8ByteSize := rfl
  have decoded := decodeVarint_encode (Nat.lt_trans small (by decide)) (s.toByteArray.data.toList ++ rest)
  have text : String.fromUTF8? ⟨(s.toByteArray.data.toList).toArray⟩ = some s := by
    have bytes : (⟨s.toByteArray.data.toList.toArray⟩ : ByteArray) = s.toByteArray := rfl
    rw [String.fromUTF8?, bytes, dif_pos s.isValidUTF8]
    rfl
  rw [encodeRequestId, tryExtractRequestId, cons_append, cons_append, List.head?_cons, if_pos rfl,
    Checked.sliceFrom_eq (by simp), bind_some, drop_one, tail_cons, append_assoc, decoded]
  show (Checked.sliceFrom _ _).bind _ = _
  rw [Checked.sliceFrom_eq (by simp), bind_some, drop_left, if_neg (by rw [length_append, length]; omega),
    Checked.sliceTo_eq (by rw [length_append, length]; omega), ← length, take_left, map_some, text,
    bind_some, if_neg]
  rw [String.isEmpty_iff]
  exact nonempty

theorem tryExtractRequestId_recovers_short : tryExtractRequestId (encodeRequestId "ab" ++ [0xFF]) = some (some "ab") :=
  tryExtractRequestId_recovers.2 "ab" [0xFF] (by decide) (by decide)

end Warp.Remote.Wire
