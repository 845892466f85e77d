import PropertyTree.Binary64
import PropertyTree.Keyed
/-!
# JSON values

A JSON value is a tree whose objects list their members in key order, each key once; `Json.Ordered`
says so for every object inside. A number is either whole, when it is written without fraction and
exponent and fits 64 bits, or a binary floating-point number; `1` and `1.0` differ.
-/

namespace PropertyTree

/-- A number of a JSON text. -/
inductive Number where
  | whole (value : Int) (inRange : -0x8000_0000_0000_0000 ≤ value ∧ value < 0x1_0000_0000_0000_0000)
  | float (value : Binary64)
deriving DecidableEq

namespace Number

/-- The whole number, if it fits 64 bits with or without sign. -/
def ofInt? (n : Int) : Option Number :=
  if h : -0x8000_0000_0000_0000 ≤ n ∧ n < 0x1_0000_0000_0000_0000 then some (.whole n h) else none

/-- A natural below `2 ^ 64` as a number. -/
def ofUInt64 (n : UInt64) : Number :=
  .whole n.toNat (by have := n.toNat_lt; omega)

/-- A signed 64-bit integer as a number. -/
def ofInt64 (n : Int64) : Number :=
  .whole n.toInt (by have := n.toInt_lt; have := n.le_toInt; omega)

/-- The number as an unsigned 64-bit integer; a float is never one, whatever its value. -/
def toUInt64? : Number → Option UInt64
  | .whole n _ => if 0 ≤ n then some (.ofNat n.toNat) else none
  | .float _ => none

theorem toUInt64?_ofUInt64 (n : UInt64) : (ofUInt64 n).toUInt64? = some n := by
  simp [ofUInt64, toUInt64?]

/-- The binary number nearest to the number. -/
def toBinary64 : Number → Binary64
  | .whole n _ => (Binary64.ofInt? n).getD (.zero false)
  | .float f => f

end Number

/-- A JSON value. -/
inductive Json where
  | null
  | bool (value : Bool)
  | number (value : Number)
  | string (value : String)
  | array (items : List Json)
  | object (members : List (String × Json))

namespace Json

instance : Inhabited Json := ⟨.null⟩

/-- The name of the value's type in messages. -/
def kindName : Json → String
  | .null => "null"
  | .bool _ => "boolean"
  | .number _ => "number"
  | .string _ => "string"
  | .array _ => "array"
  | .object _ => "object"

mutual

/-- Every object in the value lists its members in strictly increasing key order. -/
def Ordered : Json → Prop
  | .array items => OrderedItems items
  | .object members => Keyed.Ordered members ∧ OrderedMembers members
  | _ => True

/-- Every item is ordered. -/
def OrderedItems : List Json → Prop
  | [] => True
  | item :: rest => item.Ordered ∧ OrderedItems rest

/-- The value of every member is ordered. -/
def OrderedMembers : List (String × Json) → Prop
  | [] => True
  | (_, value) :: rest => value.Ordered ∧ OrderedMembers rest

end

mutual

/-- Decides equality of two values. -/
def decEq : (a b : Json) → Decidable (a = b)
  | .null, b => match b with
    | .null => isTrue rfl
    | .bool _ | .number _ | .string _ | .array _ | .object _ => isFalse nofun
  | .bool x, b => match b with
    | .bool y => if h : x = y then isTrue (h ▸ rfl) else isFalse fun e => h (Json.bool.inj e)
    | .null | .number _ | .string _ | .array _ | .object _ => isFalse nofun
  | .number x, b => match b with
    | .number y => if h : x = y then isTrue (h ▸ rfl) else isFalse fun e => h (Json.number.inj e)
    | .null | .bool _ | .string _ | .array _ | .object _ => isFalse nofun
  | .string x, b => match b with
    | .string y => if h : x = y then isTrue (h ▸ rfl) else isFalse fun e => h (Json.string.inj e)
    | .null | .bool _ | .number _ | .array _ | .object _ => isFalse nofun
  | .array x, b => match b with
    | .array y => match decEqItems x y with
      | isTrue h => isTrue (h ▸ rfl)
      | isFalse h => isFalse fun e => h (Json.array.inj e)
    | .null | .bool _ | .number _ | .string _ | .object _ => isFalse nofun
  | .object x, b => match b with
    | .object y => match decEqMembers x y with
      | isTrue h => isTrue (h ▸ rfl)
      | isFalse h => isFalse fun e => h (Json.object.inj e)
    | .null | .bool _ | .number _ | .string _ | .array _ => isFalse nofun

/-- Decides equality of two lists of items. -/
def decEqItems : (a b : List Json) → Decidable (a = b)
  | [], [] => isTrue rfl
  | [], _ :: _ => isFalse nofun
  | _ :: _, [] => isFalse nofun
  | x :: xs, y :: ys => match decEq x y, decEqItems xs ys with
    | isTrue h, isTrue t => isTrue (by rw [h, t])
    | isFalse h, _ => isFalse fun e => h (List.cons.inj e).1
    | _, isFalse t => isFalse fun e => t (List.cons.inj e).2

/-- Decides equality of two lists of members. -/
def decEqMembers : (a b : List (String × Json)) → Decidable (a = b)
  | [], [] => isTrue rfl
  | [], _ :: _ => isFalse nofun
  | _ :: _, [] => isFalse nofun
  | (k, x) :: xs, (l, y) :: ys =>
    if hk : k = l then
      match decEq x y, decEqMembers xs ys with
      | isTrue h, isTrue t => isTrue (by rw [hk, h, t])
      | isFalse h, _ => isFalse fun e => h (Prod.mk.inj (List.cons.inj e).1).2
      | _, isFalse t => isFalse fun e => t (List.cons.inj e).2
    else isFalse fun e => hk (Prod.mk.inj (List.cons.inj e).1).1

end

instance : DecidableEq Json := decEq

/-- The member of an object with this key. -/
def member? (key : String) : Json → Option Json
  | .object members => Keyed.find? key members
  | _ => none

/-- An object from members in any order; the last of two with one key counts. -/
def ofMembers (members : List (String × Json)) : Json :=
  .object (members.foldl (fun acc (key, value) => Keyed.insert key value acc) [])

end Json

end PropertyTree
