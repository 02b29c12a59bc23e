import Mathlib.Tactic

namespace Warp

universe u v

/-- A JSON document as its text has it: the fields of an object in their order, with a name as often as it stands there. -/
inductive Json where
  | null
  | bool (value : Bool)
  | int (value : ℤ)
  | float (literal : String)
  | string (value : String)
  | array (items : List Json)
  | object (fields : List (String × Json))

namespace Json

def get (key : String) : Json → Option Json
  | object fields => (fields.reverse.find? fun field => field.1 = key).map Prod.snd
  | _ => none

def asStr : Json → Option String
  | string value => some value
  | _ => none

def asArray : Json → Option (List Json)
  | array items => some items
  | _ => none

def asU64 : Json → Option ℕ
  | int (.ofNat value) => if value < 2 ^ 64 then some value else none
  | _ => none

/-- What a derived visitor has found for a field. -/
inductive Member where
  | present (value : Json)
  | missing
  | ended

/-- A field that stands there twice, under any of its names, is an error. -/
def member (fields : List (String × Json)) (names : List String) : Option Member :=
  match fields.filter fun field => field.1 ∈ names with
  | [] => some .missing
  | [field] => some (.present field.2)
  | _ => none

/-- The fields of a struct, each with its names. A struct may also be written as the array of its fields. -/
def members (names : List (List String)) : Json → Option (List Member)
  | object fields => names.mapM (member fields)
  | array items =>
    if items.length ≤ names.length then
      some (items.map .present ++ List.replicate (names.length - items.length) .ended)
    else none
  | _ => none

section Readers

variable {α : Type u}

def toBool : Json → Option Bool
  | bool value => some value
  | _ => none

def toInt32 : Json → Option Int32
  | int (.ofNat value) => if value < 2 ^ 31 then some (.ofInt (.ofNat value)) else none
  | int (.negSucc value) => if value < 2 ^ 31 then some (.ofInt (.negSucc value)) else none
  | _ => none

def toInt64 : Json → Option Int64
  | int (.ofNat value) => if value < 2 ^ 63 then some (.ofInt (.ofNat value)) else none
  | int (.negSucc value) => if value < 2 ^ 63 then some (.ofInt (.negSucc value)) else none
  | _ => none

def toUInt32 : Json → Option UInt32
  | int (.ofNat value) => if value < 2 ^ 32 then some (.ofNat value) else none
  | _ => none

def toOption (read : Json → Option α) : Json → Option (Option α)
  | null => some none
  | value => (read value).map some

def toVec (read : Json → Option α) : Json → Option (List α)
  | array items => items.mapM read
  | _ => none

namespace Member

def required (read : Json → Option α) : Member → Option α
  | present value => read value
  | _ => none

def optional (read : Json → Option α) : Member → Option (Option α)
  | present value => toOption read value
  | missing => some none
  | ended => none

def orDefault (default : α) (read : Json → Option α) : Member → Option α
  | present value => read value
  | _ => some default

end Member

end Readers

def ofOption {α : Type u} (write : α → Json) : Option α → Json
  | none => null
  | some value => write value

def ofVec {α : Type u} (write : α → Json) (values : List α) : Json := array (values.map write)

def ofInt32 (value : Int32) : Json := int value.toInt

def ofInt64 (value : Int64) : Json := int value.toInt

def ofUInt32 (value : UInt32) : Json := int value.toNat

section RoundTrips

variable {α : Type u}

@[simp] theorem toInt32_ofInt32 (value : Int32) : toInt32 (ofInt32 value) = some value := by
  have low := value.le_toInt
  have high := value.toInt_lt
  have back := value.ofInt_toInt
  unfold ofInt32
  generalize value.toInt = signed at low high back
  cases signed with
  | ofNat n =>
    have small : n < 2 ^ 31 := Int.ofNat_lt.mp high
    exact (if_pos small).trans (congrArg some back)
  | negSucc n =>
    have small : n < 2 ^ 31 := by omega
    exact (if_pos small).trans (congrArg some back)

@[simp] theorem toInt64_ofInt64 (value : Int64) : toInt64 (ofInt64 value) = some value := by
  have low := value.le_toInt
  have high := value.toInt_lt
  have back := value.ofInt_toInt
  unfold ofInt64
  generalize value.toInt = signed at low high back
  cases signed with
  | ofNat n =>
    have small : n < 2 ^ 63 := Int.ofNat_lt.mp high
    exact (if_pos small).trans (congrArg some back)
  | negSucc n =>
    have small : n < 2 ^ 63 := by omega
    exact (if_pos small).trans (congrArg some back)

@[simp] theorem toUInt32_ofUInt32 (value : UInt32) : toUInt32 (ofUInt32 value) = some value := by
  have small : value.toNat < 2 ^ 32 := value.toNat_lt
  exact (if_pos small).trans (congrArg some UInt32.ofNat_toNat)

theorem toVec_ofVec {β : Type v} {write : β → Json} {read : Json → Option α} {into : α → β} {values : List β}
    (each : ∀ value ∈ values, (read (write value)).map into = some value) :
    (toVec read (ofVec write values)).map (List.map into) = some values := by
  show ((values.map write).mapM read).map (List.map into) = some values
  induction values with
  | nil => rfl
  | cons value values ih =>
    obtain ⟨first, readFirst, intoFirst⟩ := Option.map_eq_some_iff.mp (each value List.mem_cons_self)
    obtain ⟨others, readOthers, intoOthers⟩ :=
      Option.map_eq_some_iff.mp (ih fun other member => each other (List.mem_cons_of_mem value member))
    rw [List.map_cons, List.mapM_cons, readFirst, readOthers, ← intoFirst, ← intoOthers]
    rfl

end RoundTrips

end Json

end Warp
