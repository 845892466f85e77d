import PropertyTree.Value
/-!
# Kinds of values

A schema gives each property a kind, which says what values it accepts, and possibly a default.
-/

namespace PropertyTree

/-- What values a property accepts. -/
inductive Kind where
  | bool
  | string
  /-- Any number. -/
  | number
  /-- A number that is an integer of 64 bits, signed or unsigned. -/
  | integer
  /-- One of the listed values. -/
  | oneOf (values : List Value)
deriving DecidableEq

namespace Kind

/-- The kind accepts the value. -/
def accepts : Kind → Value → Bool
  | .bool, .bool _ => true
  | .string, .text _ => true
  | .number, .number _ _ => true
  | .integer, .number n _ => n.isWhole
  | .oneOf values, v => values.contains v
  | _, _ => false

/-- The text of the kind in messages. -/
def display : Kind → String
  | .bool => "boolean"
  | .string => "string"
  | .number => "number"
  | .integer => "integer"
  | .oneOf values => "one of [" ++ ", ".intercalate (values.map Value.display) ++ "]"

/-- The name of the kind in configurations and printed schemas. -/
def name : Kind → String
  | .bool => "bool"
  | .string => "string"
  | .number => "number"
  | .integer => "integer"
  | .oneOf _ => "one_of"

end Kind

/-- What a schema says about one property. -/
structure Descriptor where
  kind : Kind
  /-- What a reader may take when the property holds nothing. -/
  default : Option Value
deriving DecidableEq

namespace Descriptor

/-- The default, if there is one, is accepted by the kind. -/
def DefaultFits (d : Descriptor) : Prop := ∀ v, d.default = some v → d.kind.accepts v = true

/-- The members of the printed descriptor: kind, listed values, default. -/
def members (d : Descriptor) : List (String × Json) :=
  ("kind", .string d.kind.name)
    :: (match d.kind with
      | .oneOf values => [("values", Json.array (values.map Value.toJson))]
      | _ => [])
    ++ (d.default.map fun v => ("default", v.toJson)).toList

/-- The printed descriptor. -/
def toJson (d : Descriptor) : Json := .object d.members

end Descriptor

end PropertyTree
