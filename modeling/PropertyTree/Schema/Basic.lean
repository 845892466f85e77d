import PropertyTree.Failure
import PropertyTree.Schema.Kind
/-!
# Schemas

A schema is a map from the paths of the known properties to their descriptors. It is asked before
anything is written; the store never fills in its defaults. A schema is prefix-free when no property
lies above another.
-/

namespace PropertyTree

/-- The known properties. -/
abbrev Schema := Dictionary Path Descriptor

namespace Schema

/-- Declares a property, in place of what was declared at the path. -/
def declare (schema : Schema) (path : Path) (descriptor : Descriptor) : Schema :=
  schema.insert path descriptor

/-- What is declared at a path. A path above a property is no property. -/
def lookup (schema : Schema) (path : Path) : Except SchemaError Descriptor :=
  match schema.get? path with
  | some descriptor => .ok descriptor
  | none => .error (.unknownProperty path.dotted)

/-- The path is declared. -/
def declares (schema : Schema) (path : Path) : Bool := (schema.get? path).isSome

/-- Checks that a value fits the property at a path. -/
def check (schema : Schema) (path : Path) (value : Value) : Except SchemaError Unit := do
  let descriptor ← schema.lookup path
  if descriptor.kind.accepts value then .ok ()
  else .error (.typeMismatch path.dotted descriptor.kind.display value.display)

/-- The declared default of a path. -/
def defaultFor? (schema : Schema) (path : Path) : Option Value :=
  (schema.get? path).bind (·.default)

/-- The stored value, or else the declared default. -/
def valueOrDefault? (schema : Schema) (stored : Option Value) (path : Path) : Option Value :=
  stored <|> schema.defaultFor? path

/-- No declared path lies above another. -/
def PrefixFree (schema : Schema) : Prop :=
  ∀ a ∈ schema.keys, ∀ b ∈ schema.keys, a.isAbove b = false

/-- The printed schema: an object from dotted paths to descriptors, in path order. -/
def toJson (schema : Schema) : Json :=
  .object (schema.entries.map fun (path, descriptor) => (path.dotted, descriptor.toJson))

end Schema

end PropertyTree
