import Warp.Grid.Cell
import Warp.Lib.ByteSlice
import Warp.Lib.Checked

namespace Warp.Ansi

open Checked Str List Option
open Grid (ColorU)

abbrev Bytes := List UInt8

def ascii (s : String) : Bytes := s.toList.map fun c => .ofNat c.toNat

def fromUtf8 (bytes : Bytes) : Option Str := (String.fromUTF8? ⟨bytes.toArray⟩).map String.toList

section Numbers

def toDigit (radix : ℕ) (c : Char) : Option ℕ :=
  let value :=
    if '0' ≤ c ∧ c ≤ '9' then c.toNat - '0'.toNat
    else if 'a' ≤ c ∧ c ≤ 'z' then c.toNat - 'a'.toNat + 10
    else if 'A' ≤ c ∧ c ≤ 'Z' then c.toNat - 'A'.toNat + 10
    else radix
  if value < radix then some value else none

def pushDigit (bits radix value : ℕ) (c : Char) : Option ℕ :=
  (toDigit radix c).bind fun digit =>
    let next := value * radix + digit
    if next < 2 ^ bits then some next else none

/-- `from_str_radix` of an unsigned type with so many bits: a plus sign may stand first. -/
def fromStrRadix (bits radix : ℕ) (src : Str) : Option ℕ :=
  let digits := match src with
    | '+' :: digits => digits
    | digits => digits
  if digits = [] then none else digits.foldlM (pushDigit bits radix) 0

/-- Decimal digits only, no larger than the bound. -/
def parseDecimal (max : ℕ) (input : Bytes) : Option ℕ :=
  if input = [] then none
  else
    input.foldlM
      (fun num c => (toDigit 10 (Char.ofNat c.toNat)).bind fun digit =>
        if num * 10 + digit ≤ max then some (num * 10 + digit) else none) 0

def isAsciiDigit (byte : UInt8) : Bool := 48 ≤ byte && byte ≤ 57

def decimal (num : ℕ) (input : Bytes) : ℕ := input.foldl (fun num byte => num * 10 + (byte.toNat - 48)) num

def parseNumber (input : Bytes) : Option ℕ := parseDecimal 255 input

def parseU32 (input : Bytes) : Option ℕ := parseDecimal (2 ^ 32 - 1) input

variable {bits radix value n : ℕ} {src : Str} {c : Char}

theorem toDigit_lt (isDigit : toDigit radix c = some value) : value < radix := by
  unfold toDigit at isDigit
  dsimp only at isDigit
  rw [ite_eq_iff] at isDigit
  rcases isDigit with ⟨small, same⟩ | ⟨-, same⟩
  · rw [← Option.some_inj.mp same]
    exact small
  · cases same

theorem pushDigit_lt (pushed : pushDigit bits radix n c = some value) : value < (n + 1) * radix := by
  obtain ⟨digit, isDigit, next⟩ := Option.bind_eq_some_iff.mp pushed
  dsimp only at next
  rw [ite_eq_iff] at next
  rcases next with ⟨-, same⟩ | ⟨-, same⟩
  · rw [← Option.some_inj.mp same, Nat.succ_mul]
    exact Nat.add_lt_add_left (toDigit_lt isDigit) _
  · cases same

theorem pushDigits_lt (pushed : src.foldlM (pushDigit bits radix) n = some value) : value < (n + 1) * radix ^ src.length := by
  induction src generalizing n with
  | nil =>
    cases pushed
    rw [length_nil, Nat.pow_zero, Nat.mul_one]
    exact Nat.lt_succ_self _
  | cons c src ih =>
    rw [foldlM_cons] at pushed
    obtain ⟨next, isNext, later⟩ := Option.bind_eq_some_iff.mp pushed
    calc value < (next + 1) * radix ^ src.length := ih later
      _ ≤ (n + 1) * radix * radix ^ src.length := Nat.mul_le_mul_right _ (pushDigit_lt isNext)
      _ = (n + 1) * radix ^ (c :: src).length := by rw [length_cons, Nat.pow_succ', Nat.mul_assoc]

theorem fromStrRadix_lt (positive : 0 < radix) (parsed : fromStrRadix bits radix src = some value) :
    value < radix ^ src.length := by
  unfold fromStrRadix at parsed
  dsimp only at parsed
  split at parsed
  · rename_i digits
    rw [ite_eq_iff] at parsed
    rcases parsed with ⟨-, same⟩ | ⟨-, parsed⟩
    · cases same
    · have small := pushDigits_lt parsed
      rw [Nat.zero_add, Nat.one_mul] at small
      exact Nat.lt_of_lt_of_le small (Nat.pow_le_pow_right positive (Nat.le_succ _))
  · rw [ite_eq_iff] at parsed
    rcases parsed with ⟨-, same⟩ | ⟨-, parsed⟩
    · cases same
    · have small := pushDigits_lt parsed
      rw [Nat.zero_add, Nat.one_mul] at small
      exact small

theorem toDigit_ten {byte : UInt8} :
    toDigit 10 (Char.ofNat byte.toNat) = if isAsciiDigit byte then some (byte.toNat - 48) else none := by
  have all : ∀ value : Fin 256, toDigit 10 (Char.ofNat value) =
      if isAsciiDigit (.ofNat value) then some ((value : ℕ) - 48) else none := by
    decide +kernel
  have this := all ⟨byte.toNat, byte.toNat_lt⟩
  rwa [UInt8.ofNat_toNat] at this

theorem le_decimal {n : ℕ} {input : Bytes} : n ≤ decimal n input := by
  induction input generalizing n with
  | nil => exact Nat.le_refl n
  | cons byte input ih => exact Nat.le_trans (by omega) (@ih (n * 10 + (byte.toNat - 48)))

theorem parseDecimal_isSome_iff {max : ℕ} {input : Bytes} :
    (parseDecimal max input).isSome ↔ input ≠ [] ∧ input.all isAsciiDigit ∧ decimal 0 input ≤ max := by
  have digits : ∀ n ≤ max, (input.foldlM
      (fun num c => (toDigit 10 (Char.ofNat c.toNat)).bind fun digit =>
        if num * 10 + digit ≤ max then some (num * 10 + digit) else none) n).isSome ↔
      input.all isAsciiDigit ∧ decimal n input ≤ max := by
    induction input with
    | nil => simp [decimal]
    | cons byte input ih =>
      intro n _
      rw [foldlM_cons, toDigit_ten, all_cons]
      by_cases digit : isAsciiDigit byte
      · rw [if_pos digit, digit, Bool.true_and, bind_some]
        by_cases small : n * 10 + (byte.toNat - 48) ≤ max
        · rw [if_pos small]
          exact ih _ small
        · have large : ¬ decimal n (byte :: input) ≤ max := fun bound => small (Nat.le_trans le_decimal bound)
          simp [small, large]
      · simp [digit]
  unfold parseDecimal
  by_cases empty : input = []
  · simp [empty]
  · rw [if_neg empty, digits 0 (Nat.zero_le _)]
    simp [empty]

end Numbers

def colorU (r g b : ℕ) : ColorU := ⟨.ofNat r, .ofNat g, .ofNat b, 0xFF⟩

def components (r g b : Option (Option ℕ)) : Option (Option ColorU) :=
  early r fun r => early g fun g => early b fun b => some (some (colorU r g b))

def scale (input : Str) : Option (Option ℕ) :=
  if 4 < byteLen input then some none
  else do
    let max ← sub (16 ^ byteLen input) 1
    match fromStrRadix 32 16 input with
    | none => some none
    | some value =>
      let scaled ← mul 32 255 value
      let quotient ← div scaled max
      some (some quotient)

/-- `rgb:r(rrr)/g(ggg)/b(bbb)` -/
def parseRgbColor (color : Bytes) : Option (Option ColorU) :=
  match fromUtf8 color with
  | none => some none
  | some color =>
    let colors := color.splitOn '/'
    if colors.length ≠ 3 then some none
    else components ((index colors 0).bind scale) ((index colors 1).bind scale) ((index colors 2).bind scale)

def hexValue (slice : Bytes) : Option ℕ := (fromUtf8 slice).bind (fromStrRadix 64 16)

def colorFromSlice (slice : Bytes) : Option (Option ℕ) :=
  match hexValue slice with
  | none => some none
  | some value => do
    let col ← shiftLeft 64 value 4
    let shifted ← shiftRight 64 col (4 * (slice.length - 1))
    some (some shifted)

/-- `#r(rrr)g(ggg)b(bbb)` -/
def parseLegacyColor (color : Bytes) : Option (Option ColorU) :=
  let itemLen := color.length / 3
  components ((slice color 0 itemLen).bind colorFromSlice) ((slice color itemLen (itemLen * 2)).bind colorFromSlice)
    ((sliceFrom color (itemLen * 2)).bind colorFromSlice)

def xparseColor (color : Bytes) : Option (Option ColorU) := do
  let legacy : Bool ← if color = [] then some false else (index color 0).map fun byte => decide (byte = 35)
  if legacy then (sliceFrom color 1).bind parseLegacyColor
  else
    let rgb : Bool ← if 4 ≤ color.length then (sliceTo color 4).map fun start => decide (start = ascii "rgb:") else some false
    if rgb then (sliceFrom color 4).bind parseRgbColor else some none

section Panics

def Wide (slice : Bytes) : Prop := (hexValue slice).isSome ∧ 17 ≤ slice.length

/-- The component that is shifted out is reached: those before it are numbers. -/
def LegacyShiftsOut (color : Bytes) : Prop :=
  let itemLen := color.length / 3
  let r := color.take itemLen
  let g := (color.take (itemLen * 2)).drop itemLen
  let b := color.drop (itemLen * 2)
  Wide r ∨ (hexValue r).isSome ∧ (Wide g ∨ (hexValue g).isSome ∧ Wide b)

def ShiftsOut (color : Bytes) : Prop := ∃ rest, color = 35 :: rest ∧ LegacyShiftsOut rest

def IsIndex (name : Bytes) : Prop := name ≠ [] ∧ name.all isAsciiDigit ∧ decimal 0 name ≤ 255

def LegacyColor (color : Bytes) : Prop :=
  let itemLen := color.length / 3
  (hexValue (color.take itemLen)).isSome ∧ (hexValue ((color.take (itemLen * 2)).drop itemLen)).isSome ∧
    (hexValue (color.drop (itemLen * 2))).isSome

def RgbComponent (component : Str) : Prop := byteLen component ≤ 4 ∧ (fromStrRadix 32 16 component).isSome

def RgbColor (color : Bytes) : Prop :=
  ∃ text r g b, fromUtf8 color = some text ∧ text.splitOn '/' = [r, g, b] ∧
    RgbComponent r ∧ RgbComponent g ∧ RgbComponent b

def IsColor (color : Bytes) : Prop :=
  (∃ rest, color = 35 :: rest ∧ LegacyColor rest) ∨ ∃ rest, color = ascii "rgb:" ++ rest ∧ RgbColor rest

theorem components_isSome_iff {r g b : Option (Option ℕ)} :
    (components r g b).isSome ↔
      r.isSome ∧ ∀ x, r = some (some x) → g.isSome ∧ ∀ y, g = some (some y) → b.isSome := by
  unfold components
  rcases r with _ | _ | x
  · simp
  · simp
  rcases g with _ | _ | y
  · simp
  · simp
  rcases b with _ | _ | z <;> simp

theorem colorFromSlice_isSome_iff {slice : Bytes} : (colorFromSlice slice).isSome ↔ ¬ Wide slice := by
  unfold colorFromSlice Wide
  cases parsed : hexValue slice with
  | none => simp
  | some value =>
    dsimp only
    rw [shiftLeft, if_pos (by decide)]
    unfold shiftRight
    by_cases narrow : 4 * (slice.length - 1) < 64
    · simp [narrow]
      omega
    · simp [narrow]
      omega

theorem colorFromSlice_value {slice : Bytes} (narrow : ¬ Wide slice) :
    (∃ x, colorFromSlice slice = some (some x)) ↔ (hexValue slice).isSome := by
  have returns := colorFromSlice_isSome_iff.mpr narrow
  unfold colorFromSlice at *
  cases parsed : hexValue slice with
  | none => simp
  | some value =>
    rw [parsed] at returns
    dsimp only at *
    rw [shiftLeft, if_pos (by decide)] at *
    unfold shiftRight at *
    by_cases short : 4 * (slice.length - 1) < 64
    · simp [short]
    · simp [short] at returns

variable {color : Bytes}

theorem parseLegacyColor_isSome_iff : (parseLegacyColor color).isSome ↔ ¬ LegacyShiftsOut color := by
  have third : color.length / 3 * 2 ≤ color.length := by omega
  unfold parseLegacyColor LegacyShiftsOut
  dsimp only
  rw [slice_eq (Nat.zero_le _) (by omega), slice_eq (by omega) third, sliceFrom_eq third, drop_zero, bind_some,
    bind_some, bind_some, components_isSome_iff, colorFromSlice_isSome_iff]
  generalize color.take (color.length / 3) = r
  generalize (color.take (color.length / 3 * 2)).drop (color.length / 3) = g
  generalize color.drop (color.length / 3 * 2) = b
  rw [not_or, not_and, not_or, not_and]
  apply and_congr_right
  intro narrow
  rw [← colorFromSlice_value narrow, colorFromSlice_isSome_iff, forall_exists_index]
  refine forall_congr' fun x => forall_congr' fun _ => and_congr_right fun narrowG => ?_
  rw [← colorFromSlice_value narrowG, colorFromSlice_isSome_iff, forall_exists_index]

theorem length_le_byteLen (s : Str) : s.length ≤ byteLen s := by
  induction s with
  | nil => exact Nat.le_refl 0
  | cons c s ih =>
    have positive := c.utf8Size_pos
    rw [length_cons, byteLen_cons]
    omega

theorem scale_isSome (input : Str) : (scale input).isSome := by
  unfold scale
  apply ite_isSome (fun _ => rfl)
  intro short
  rw [sub_eq (Nat.one_le_pow _ _ (by decide))]
  dsimp only [bind, Option.bind]
  cases parsed : fromStrRadix 32 16 input with
  | none => rfl
  | some value =>
    dsimp only
    have chars := length_le_byteLen input
    have small : value < 16 ^ 4 :=
      Nat.lt_of_lt_of_le (fromStrRadix_lt (by decide) parsed) (Nat.pow_le_pow_right (by decide) (by omega))
    have nonempty : input ≠ [] := by
      rintro rfl
      cases parsed
    have long : 1 ≤ byteLen input := Nat.le_trans (List.length_pos_iff.mpr nonempty) chars
    have bound : 16 ^ byteLen input - 1 ≠ 0 := by
      have := Nat.pow_le_pow_right (n := 16) (by decide) long
      omega
    rw [mul_eq (by omega)]
    dsimp only
    rw [div_eq bound]
    rfl

theorem parseRgbColor_isSome (color : Bytes) : (parseRgbColor color).isSome := by
  unfold parseRgbColor
  cases fromUtf8 color with
  | none => rfl
  | some color =>
    dsimp only
    apply ite_isSome (fun _ => rfl)
    intro three
    rw [not_not] at three
    rw [index_eq (by omega), index_eq (by omega), index_eq (by omega), components_isSome_iff]
    exact ⟨scale_isSome _, fun _ _ => ⟨scale_isSome _, fun _ _ => scale_isSome _⟩⟩

theorem xparseColor_isSome_iff : (xparseColor color).isSome ↔ ¬ ShiftsOut color := by
  unfold xparseColor ShiftsOut
  cases color with
  | nil => simp
  | cons first rest =>
    rw [if_neg (cons_ne_nil _ _), index_eq (Nat.succ_pos _)]
    by_cases hash : first = 35
    · subst hash
      simp only [map_some, bind, Option.bind, getElem_cons_zero, decide_true, if_true]
      rw [sliceFrom_eq (by simp)]
      simp [parseLegacyColor_isSome_iff]
    · have other : ¬ ∃ rest', first :: rest = 35 :: rest' ∧ LegacyShiftsOut rest' := by
        rintro ⟨_, same, -⟩
        exact hash (List.cons.inj same).1
      simp only [other, not_false_iff, iff_true]
      simp only [map_some, bind, Option.bind, getElem_cons_zero, hash, decide_false, Bool.false_eq_true, if_false]
      by_cases long : 4 ≤ (first :: rest).length
      · rw [if_pos long, sliceTo_eq long, map_some]
        dsimp only
        apply ite_isSome
        · intro _
          rw [sliceFrom_eq long]
          exact parseRgbColor_isSome _
        · exact fun _ => rfl
      · rw [if_neg long]
        rfl

theorem parseNumber_isSome_iff {name : Bytes} : (parseNumber name).isSome ↔ IsIndex name := parseDecimal_isSome_iff

theorem components_value {r g b : Option (Option ℕ)} :
    (∃ color, components r g b = some (some color)) ↔
      (∃ x, r = some (some x)) ∧ (∃ y, g = some (some y)) ∧ ∃ z, b = some (some z) := by
  unfold components
  rcases r with _ | _ | x
  · simp
  · simp
  rcases g with _ | _ | y
  · simp
  · simp
  rcases b with _ | _ | z <;> simp

theorem scale_value {input : Str} : (∃ x, scale input = some (some x)) ↔ RgbComponent input := by
  have returns := scale_isSome input
  unfold scale RgbComponent at *
  by_cases long : 4 < byteLen input
  · rw [if_pos long]
    simp [Nat.not_le.mpr long]
  rw [if_neg long] at *
  rw [sub_eq (Nat.one_le_pow _ _ (by decide))] at *
  dsimp only [bind, Option.bind] at *
  cases parsed : fromStrRadix 32 16 input with
  | none => simp
  | some value =>
    rw [parsed] at returns
    dsimp only at *
    cases scaled : mul 32 255 value with
    | none => simp [scaled] at returns
    | some product =>
      rw [scaled] at returns
      dsimp only at *
      cases divided : div product (16 ^ byteLen input - 1) with
      | none => simp [divided] at returns
      | some quotient => simp [Nat.le_of_not_lt long]

theorem parseRgbColor_value : (∃ c, parseRgbColor color = some (some c)) ↔ RgbColor color := by
  unfold parseRgbColor RgbColor
  cases fromUtf8 color with
  | none => simp
  | some text =>
    dsimp only
    by_cases three : (text.splitOn '/').length = 3
    · rw [if_neg (not_not.mpr three), index_eq (by omega), index_eq (by omega), index_eq (by omega), components_value]
      obtain ⟨r, g, b, split⟩ := List.length_eq_three.mp three
      simp [split, scale_value]
    · rw [if_pos three]
      constructor
      · rintro ⟨_, same⟩
        cases same
      · rintro ⟨text', r, g, b, same, split, -⟩
        cases same
        exact absurd (by rw [split]; rfl) three

theorem parseLegacyColor_value (within : ¬ LegacyShiftsOut color) :
    (∃ c, parseLegacyColor color = some (some c)) ↔ LegacyColor color := by
  have third : color.length / 3 * 2 ≤ color.length := by omega
  unfold parseLegacyColor LegacyColor LegacyShiftsOut at *
  dsimp only at *
  rw [slice_eq (Nat.zero_le _) (by omega), slice_eq (by omega) third, sliceFrom_eq third, drop_zero, bind_some,
    bind_some, bind_some, components_value]
  generalize color.take (color.length / 3) = r at *
  generalize (color.take (color.length / 3 * 2)).drop (color.length / 3) = g at *
  generalize color.drop (color.length / 3 * 2) = b at *
  rw [not_or, not_and, not_or, not_and] at within
  rw [colorFromSlice_value within.1]
  apply and_congr_right
  intro red
  rw [colorFromSlice_value (within.2 red).1]
  apply and_congr_right
  intro green
  exact colorFromSlice_value ((within.2 red).2 green)

theorem xparseColor_value (within : ¬ ShiftsOut color) :
    (∃ c, xparseColor color = some (some c)) ↔ IsColor color := by
  have mark : ascii "rgb:" = [114, 103, 98, 58] := rfl
  have prefixed : ∀ rest : Bytes, ascii "rgb:" ++ rest = 114 :: 103 :: 98 :: 58 :: rest := fun _ => rfl
  unfold xparseColor IsColor
  simp only [prefixed]
  cases color with
  | nil => simp
  | cons first rest =>
    rw [if_neg (cons_ne_nil _ _), index_eq (Nat.succ_pos _)]
    by_cases hash : first = 35
    · subst hash
      simp only [map_some, bind, Option.bind, getElem_cons_zero, decide_true, if_true]
      rw [sliceFrom_eq (by simp)]
      have narrow : ¬ LegacyShiftsOut rest := fun shifts => within ⟨rest, rfl, shifts⟩
      simpa using parseLegacyColor_value narrow
    · simp only [map_some, bind, Option.bind, getElem_cons_zero, hash, decide_false, Bool.false_eq_true, if_false]
      by_cases long : 4 ≤ (first :: rest).length
      · rw [if_pos long, sliceTo_eq long, map_some]
        dsimp only
        obtain _ | ⟨second, _ | ⟨third, _ | ⟨fourth, rest⟩⟩⟩ := rest
        · simp at long
        · simp at long
        · simp at long
        by_cases rgb : (first :: second :: third :: fourth :: rest).take 4 = ascii "rgb:"
        · rw [decide_eq_true rgb, if_pos rfl, sliceFrom_eq long]
          have same : first = 114 ∧ second = 103 ∧ third = 98 ∧ fourth = 58 := by simpa [mark] using rgb
          simp [same, parseRgbColor_value]
        · rw [decide_eq_false rgb]
          have other : ¬ (first = 114 ∧ second = 103 ∧ third = 98 ∧ fourth = 58) := by simpa [mark] using rgb
          simp [hash]
          tauto
      · rw [if_neg long]
        simp [hash]
        rintro rest rfl rfl
        simp at long

end Panics

end Warp.Ansi
