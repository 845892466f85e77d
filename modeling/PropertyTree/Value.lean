import PropertyTree.Json.Printer
/-!
# Property values

A property holds a scalar: a boolean, a number or a text. A float that denotes an integer in the
range of a signed 64-bit word is kept as that integer, so `1.0` and `1` are one value; the number of
a `Value` carries the proof that it is in this form.
-/

namespace PropertyTree

namespace Number

/-- The integer in the signed 64-bit range that a float denotes. -/
def integral? (f : Binary64) : Option Int :=
  f.toInt?.filter fun n => -0x8000_0000_0000_0000 ≤ n && n < 0x8000_0000_0000_0000

/-- No float in it stands for a signed 64-bit integer. -/
def IsNormal : Number → Prop
  | .whole _ _ => True
  | .float f => integral? f = none

instance : (n : Number) → Decidable n.IsNormal
  | .whole _ _ => isTrue trivial
  | .float f => inferInstanceAs (Decidable (integral? f = none))

/-- The integer that a float stands for in place of the float. -/
def normalize : Number → Number
  | .whole n h => .whole n h
  | .float f => ((integral? f).bind ofInt?).getD (.float f)

theorem isNormal_normalize (n : Number) : n.normalize.IsNormal := by
  cases n with
  | whole n h => trivial
  | float f =>
    rw [normalize]
    cases h : integral? f with
    | none => exact h
    | some n =>
      have inRange : -0x8000_0000_0000_0000 ≤ n ∧ n < 0x8000_0000_0000_0000 := by
        have := (Option.filter_eq_some_iff.mp h).2
        simpa using this
      have whole : ofInt? n = some (.whole n ⟨inRange.1, by omega⟩) := dif_pos _
      simp only [Option.bind_some, whole, Option.getD_some]
      trivial

theorem normalize_of_isNormal {n : Number} (h : n.IsNormal) : n.normalize = n := by
  cases n with
  | whole n _ => rfl
  | float f =>
    have h : integral? f = none := h
    simp [normalize, h]

/-- The number as a signed 64-bit integer; a float is never one. -/
def toInt64? : Number → Option Int
  | .whole n _ => if n < 0x8000_0000_0000_0000 then some n else none
  | .float _ => none

/-- The number is whole. -/
def isWhole : Number → Bool
  | .whole _ _ => true
  | .float _ => false

end Number

/-- A scalar held by a property. -/
inductive Value where
  | bool (value : Bool)
  | number (value : Number) (normal : value.IsNormal)
  | text (value : String)
deriving DecidableEq

namespace Value

/-- The value of a number. -/
def ofNumber (n : Number) : Value := .number n.normalize n.isNormal_normalize

/-- The value of a finite float. -/
def ofBinary64 (f : Binary64) : Value := ofNumber (.float f)

/-- The value of a float; only finite ones have one. -/
def ofExtended64? : Extended64 → Option Value
  | .finite f => some (ofBinary64 f)
  | .infinite _ | .nan => none

/-- The value of an integer. -/
def ofInt (n : Int64) : Value := .number (.ofInt64 n) trivial

/-- The value of a natural below `2 ^ 64`. -/
def ofUInt64 (n : UInt64) : Value := .number (.ofUInt64 n) trivial

/-- The value that a JSON value stands for; only scalars do. -/
def ofJson? : Json → Option Value
  | .bool value => some (.bool value)
  | .number value => some (ofNumber value)
  | .string value => some (.text value)
  | .null | .array _ | .object _ => none

/-- The value as JSON. -/
def toJson : Value → Json
  | .bool value => .bool value
  | .number value _ => .number value
  | .text value => .string value

/-- Writing a value as JSON and reading it gives the value back. -/
@[simp] theorem ofJson?_toJson (v : Value) : ofJson? v.toJson = some v := by
  cases v with
  | bool b => rfl
  | number n h => simp [toJson, ofJson?, ofNumber, Number.normalize_of_isNormal h]
  | text s => rfl

/-- The text of the value in messages. -/
def display (v : Value) : String := v.toJson.compact

/-- The name of the value's type in messages. -/
def kindName (v : Value) : String := v.toJson.kindName

/-- The value as a boolean. -/
def toBool? : Value → Option Bool
  | .bool value => some value
  | _ => none

/-- The value as a text. -/
def toText? : Value → Option String
  | .text value => some value
  | _ => none

/-- The value as a signed 64-bit integer. -/
def toInt64? : Value → Option Int
  | .number value _ => value.toInt64?
  | _ => none

/-- The binary number nearest to the value, if it is a number. -/
def toBinary64? : Value → Option Binary64
  | .number value _ => some value.toBinary64
  | _ => none

end Value

end PropertyTree
