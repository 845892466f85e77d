import PropertyTree.Json.Basic
/-!
# TOML values

A TOML value is a tree much like a JSON value. It has no null and only signed 64-bit integers, and
it has dates and the float words that are no numbers. Both directions of the exchange with JSON are
given: every TOML value has a JSON form, and a JSON value has a TOML form unless it holds a null or
an integer that is too large.
-/

namespace PropertyTree

/-- A TOML value. -/
inductive Toml where
  | string (value : String)
  | integer (value : Int) (inRange : -0x8000_0000_0000_0000 ≤ value ∧ value < 0x8000_0000_0000_0000)
  | float (value : Extended64)
  | boolean (value : Bool)
  /-- A date, a time or both, in its normal text. -/
  | datetime (text : String)
  | array (items : List Toml)
  | table (members : List (String × Toml))

namespace Toml

instance : Inhabited Toml := ⟨.table []⟩

mutual

/-- Decides equality of two values. -/
def decEq : (a b : Toml) → Decidable (a = b)
  | .string x, b => match b with
    | .string y => if h : x = y then isTrue (h ▸ rfl) else isFalse fun e => h (Toml.string.inj e)
    | .integer _ _ | .float _ | .boolean _ | .datetime _ | .array _ | .table _ => isFalse nofun
  | .integer x _, b => match b with
    | .integer y _ =>
      if h : x = y then isTrue (by subst h; rfl) else isFalse fun e => h (Toml.integer.inj e)
    | .string _ | .float _ | .boolean _ | .datetime _ | .array _ | .table _ => isFalse nofun
  | .float x, b => match b with
    | .float y => if h : x = y then isTrue (h ▸ rfl) else isFalse fun e => h (Toml.float.inj e)
    | .string _ | .integer _ _ | .boolean _ | .datetime _ | .array _ | .table _ => isFalse nofun
  | .boolean x, b => match b with
    | .boolean y => if h : x = y then isTrue (h ▸ rfl) else isFalse fun e => h (Toml.boolean.inj e)
    | .string _ | .integer _ _ | .float _ | .datetime _ | .array _ | .table _ => isFalse nofun
  | .datetime x, b => match b with
    | .datetime y =>
      if h : x = y then isTrue (h ▸ rfl) else isFalse fun e => h (Toml.datetime.inj e)
    | .string _ | .integer _ _ | .float _ | .boolean _ | .array _ | .table _ => isFalse nofun
  | .array x, b => match b with
    | .array y => match decEqItems x y with
      | isTrue h => isTrue (h ▸ rfl)
      | isFalse h => isFalse fun e => h (Toml.array.inj e)
    | .string _ | .integer _ _ | .float _ | .boolean _ | .datetime _ | .table _ => isFalse nofun
  | .table x, b => match b with
    | .table y => match decEqMembers x y with
      | isTrue h => isTrue (h ▸ rfl)
      | isFalse h => isFalse fun e => h (Toml.table.inj e)
    | .string _ | .integer _ _ | .float _ | .boolean _ | .datetime _ | .array _ => isFalse nofun

/-- Decides equality of two lists of items. -/
def decEqItems : (a b : List Toml) → Decidable (a = b)
  | [], [] => isTrue rfl
  | [], _ :: _ => isFalse nofun
  | _ :: _, [] => isFalse nofun
  | x :: xs, y :: ys => match decEq x y, decEqItems xs ys with
    | isTrue h, isTrue t => isTrue (by rw [h, t])
    | isFalse h, _ => isFalse fun e => h (List.cons.inj e).1
    | _, isFalse t => isFalse fun e => t (List.cons.inj e).2

/-- Decides equality of two lists of members. -/
def decEqMembers : (a b : List (String × Toml)) → Decidable (a = b)
  | [], [] => isTrue rfl
  | [], _ :: _ => isFalse nofun
  | _ :: _, [] => isFalse nofun
  | (k, x) :: xs, (l, y) :: ys =>
    if hk : k = l then
      match decEq x y, decEqMembers xs ys with
      | isTrue h, isTrue t => isTrue (by rw [hk, h, t])
      | isFalse h, _ => isFalse fun e => h (Prod.mk.inj (List.cons.inj e).1).2
      | _, isFalse t => isFalse fun e => t (List.cons.inj e).2
    else isFalse fun e => hk (Prod.mk.inj (List.cons.inj e).1).1

end

instance : DecidableEq Toml := decEq

/-- The integer, if it fits a signed 64-bit word. -/
def ofInt? (n : Int) : Option Toml :=
  if h : -0x8000_0000_0000_0000 ≤ n ∧ n < 0x8000_0000_0000_0000 then some (.integer n h) else none

/-- The one key of the JSON object that stands for a date. -/
def datetimeKey : String := "$__toml_private_datetime"

mutual

/-- The JSON form of a value. A float that is no number becomes null. -/
def toJson : Toml → Json
  | .string value => .string value
  | .integer value h => .number (.whole value ⟨h.1, by omega⟩)
  | .float (.finite f) => .number (.float f)
  | .float _ => .null
  | .boolean value => .bool value
  | .datetime text => .object [(datetimeKey, .string text)]
  | .array items => .array (jsonItems items)
  | .table members => .object (jsonMembers members)

/-- The JSON forms of the items. -/
def jsonItems : List Toml → List Json
  | [] => []
  | item :: rest => item.toJson :: jsonItems rest

/-- The JSON forms of the members. -/
def jsonMembers : List (String × Toml) → List (String × Json)
  | [] => []
  | (key, value) :: rest => (key, value.toJson) :: jsonMembers rest

end

mutual

/-- The TOML form of a JSON value. -/
def ofJson? : Json → Option Toml
  | .null => none
  | .bool value => some (.boolean value)
  | .number (.whole n _) => ofInt? n
  | .number (.float f) => some (.float (.finite f))
  | .string value => some (.string value)
  | .array items => (ofItems? items).map .array
  | .object members => (ofMembers? members).map .table

/-- The TOML forms of the items. -/
def ofItems? : List Json → Option (List Toml)
  | [] => some []
  | item :: rest => do
    let first ← ofJson? item
    let others ← ofItems? rest
    some (first :: others)

/-- The TOML forms of the members. -/
def ofMembers? : List (String × Json) → Option (List (String × Toml))
  | [] => some []
  | (key, value) :: rest => do
    let first ← ofJson? value
    let others ← ofMembers? rest
    some ((key, first) :: others)

end

end Toml

end PropertyTree
