import PropertyTree.Config.Basic
import PropertyTree.Schema.Builtin
/-!
# The schema of a configuration

The entries of a configuration are declared after the built-in properties, later entries in place of
earlier ones at the same path. Each entry must make sense on its own, and no entry may lie above or
below another declared property: a property cannot hold a value and nested values.
-/

namespace PropertyTree

namespace PropertyEntry

/-- An error in a field of the entry at a position. -/
def invalid (index : Nat) (field reason : String) : ConfigError :=
  .invalid s!"schema.properties[{index}].{field}" reason

/-- The scalar that a field gives. -/
def scalar (index : Nat) (field : String) (value : Json) : Except ConfigError Value :=
  match Value.ofJson? value with
  | some v => .ok v
  | none => .error (invalid index field s!"expected a scalar, got {value.kindName}")

/-- The scalars that the field of allowed values gives. -/
def scalars (index : Nat) : List Json → Except ConfigError (List Value)
  | [] => .ok []
  | value :: rest => do
    let first ← scalar index "values" value
    let others ← scalars index rest
    .ok (first :: others)

/-- The kind that an entry names. -/
def kind? (entry : PropertyEntry) (index : Nat) : Except ConfigError Kind :=
  match entry.kind with
  | "bool" => .ok .bool
  | "string" => .ok .string
  | "number" => .ok .number
  | "integer" => .ok .integer
  | "one_of" =>
    if entry.values.isEmpty then
      .error (invalid index "values" "one_of requires at least one value")
    else (scalars index entry.values).map .oneOf
  | other =>
    .error (invalid index "kind"
      s!"unknown kind '{other}', expected bool, string, number, integer or one_of")

/-- The default that an entry gives, which must fit its kind. -/
def default? (entry : PropertyEntry) (index : Nat) (kind : Kind) :
    Except ConfigError (Option Value) :=
  match entry.default with
  | none => .ok none
  | some json => do
    let value ← scalar index "default" json
    if kind.accepts value then .ok (some value)
    else
      .error (invalid index "default" s!"default {value.display} does not fit {kind.display}")

/-- What the entry at a position declares. -/
def declaration (entry : PropertyEntry) (index : Nat) : Except ConfigError (Path × Descriptor) := do
  let path ← (Path.parse entry.path).mapError fun error => invalid index "path" error.message
  let kind ← entry.kind? index
  let default ← entry.default? index kind
  .ok (path, ⟨kind, default⟩)

end PropertyEntry

namespace SchemaSection

/-- What the entries from a position on declare; the first that is wrong decides. -/
def declarations (index : Nat) : List PropertyEntry → Except ConfigError (List (Path × Descriptor))
  | [] => .ok []
  | entry :: rest => do
    let first ← entry.declaration index
    let others ← declarations (index + 1) rest
    .ok (first :: others)

/-- The schema before the entries are declared. -/
def base (spec : SchemaSection) : Schema :=
  if spec.usesBuiltin then .builtin else .empty

/-- The first path of a schema that lies above or below the given one. -/
def overlap? (schema : Schema) (path : Path) : Option Path :=
  schema.keys.find? fun other => path.isAbove other || other.isAbove path

/-- Checks that no declared path overlaps a path of the schema; the first that does decides. -/
def checkOverlaps (schema : Schema) (index : Nat) : List Path → Except ConfigError Unit
  | [] => .ok ()
  | path :: rest =>
    match overlap? schema path with
    | some other =>
      .error (PropertyEntry.invalid index "path"
        s!"'{path.dotted}' overlaps declared property '{other.dotted}'")
    | none => checkOverlaps schema (index + 1) rest

/-- The schema that the section describes. -/
def build (spec : SchemaSection) : Except ConfigError Schema := do
  let declared ← declarations 0 spec.properties
  let schema := declared.foldl (fun schema (path, descriptor) => schema.declare path descriptor)
    spec.base
  checkOverlaps schema 0 (declared.map (·.1))
  .ok schema

end SchemaSection

namespace Config

/-- The schema that the configuration describes. -/
def buildSchema (config : Config) : Except ConfigError Schema := config.schema.build

/-- Checks the log format, the log level and the schema, in this order. -/
def validate (config : Config) : Except ConfigError Unit := do
  match config.logging.format.map LogFormat.ofName with
  | some (.error reason) => .error (.invalid "logging.format" reason)
  | _ => .ok ()
  match config.logging.level with
  | some level =>
    if Text.isBlank level then .error (.invalid "logging.level" "must not be empty") else .ok ()
  | none => .ok ()
  let _ ← config.buildSchema
  .ok ()

end Config

end PropertyTree
