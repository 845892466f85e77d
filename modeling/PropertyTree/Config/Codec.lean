import PropertyTree.Config.Basic
import PropertyTree.Toml.Printer
import PropertyTree.Toml.Reader
/-!
# Configurations as JSON and TOML

A configuration is written as nested objects in which absent options and empty lists are left out.
It is read from an object, whose unknown members are ignored, or from the array of its fields in
order. JSON and TOML share one reader; they differ in what a null means, since TOML has none of its
own, and in whether an array may hold more items than there are fields. The text of TOML is a layer
of its own, which is given.
-/

namespace PropertyTree

/-- A text form of TOML. -/
structure Toml.TextLayer where
  /-- What a text reads as, if it is TOML. -/
  parse : String → Option Toml
  /-- The text of a table with these members. -/
  render : List (String × Toml) → String

/-- The text form that the program comes with. -/
def Toml.builtinLayer : TextLayer := ⟨parse, render⟩

/-- What a reader of configurations makes of the two doubtful cases. -/
structure Dialect where
  /-- A null stands for an absent option. -/
  nullIsAbsent : Bool
  /-- Items after the last field are ignored. -/
  ignoresSurplus : Bool
deriving DecidableEq

namespace Dialect

/-- Configurations in JSON. -/
def json : Dialect := ⟨true, false⟩

/-- Configurations in TOML. A null can only stem from a float that is no number. -/
def toml : Dialect := ⟨false, true⟩

/-- The fields of these names in a value. -/
def fields (dialect : Dialect) (names : List String) : Json → Option (List (Option Json))
  | .object members => some (names.map fun name => Keyed.find? name members)
  | .array items =>
    if names.length < items.length && !dialect.ignoresSurplus then none
    else some ((List.range names.length).map fun n => items[n]?)
  | _ => none

/-- Reads an option that may be left out. -/
def optional {α : Type} (dialect : Dialect) (read : Json → Option α) :
    Option Json → Option (Option α)
  | none => some none
  | some .null => if dialect.nullIsAbsent then some none else (read .null).map some
  | some value => (read value).map some

end Dialect

namespace Config

/-- A switch. -/
def readBool : Json → Option Bool
  | .bool value => some value
  | _ => none

/-- A text. -/
def readText : Json → Option String
  | .string value => some value
  | _ => none

/-- Reads the first section. -/
def readApplier (dialect : Dialect) (json : Json) : Option ApplierSection := do
  match ← dialect.fields ["reject_unversioned", "validate_snapshot"] json with
  | [reject, validate] =>
    some ⟨← dialect.optional readBool reject, ← dialect.optional readBool validate⟩
  | _ => none

/-- Reads the second section. -/
def readLogging (dialect : Dialect) (json : Json) : Option LoggingSection := do
  match ← dialect.fields ["level", "format"] json with
  | [level, format] =>
    some ⟨← dialect.optional readText level, ← dialect.optional readText format⟩
  | _ => none

/-- A list that may be left out. -/
def readList {α : Type} (read : Json → Option α) : Option Json → Option (List α)
  | none => some []
  | some (.array items) => items.mapM read
  | some _ => none

/-- Reads a property entry. Its path and its kind must be given. -/
def readEntry (dialect : Dialect) (json : Json) : Option PropertyEntry := do
  match ← dialect.fields ["path", "kind", "default", "values"] json with
  | [path, kind, default, values] =>
    some ⟨← path.bind readText, ← kind.bind readText, ← dialect.optional some default,
      ← readList some values⟩
  | _ => none

/-- Reads the third section. -/
def readSchema (dialect : Dialect) (json : Json) : Option SchemaSection := do
  match ← dialect.fields ["builtin", "properties"] json with
  | [builtin, properties] =>
    some ⟨← dialect.optional readBool builtin, ← readList (readEntry dialect) properties⟩
  | _ => none

/-- Reads a section that may be left out. -/
def readSection {α : Type} (absent : α) (read : Json → Option α) : Option Json → Option α
  | none => some absent
  | some json => read json

/-- Reads a configuration. -/
def read (dialect : Dialect) (json : Json) : Option Config := do
  match ← dialect.fields ["applier", "logging", "schema"] json with
  | [applier, logging, schema] =>
    some ⟨← readSection empty.applier (readApplier dialect) applier,
      ← readSection empty.logging (readLogging dialect) logging,
      ← readSection empty.schema (readSchema dialect) schema⟩
  | _ => none

/-- The configuration that a JSON value describes. -/
def ofJson? (json : Json) : Option Config := read .json json

/-- The configuration that a TOML table describes. -/
def ofToml? (toml : Toml) : Option Config := read .toml toml.toJson

/-- A member for an option that is given. -/
def member {α : Type} (name : String) (write : α → Json) (option : Option α) :
    List (String × Json) :=
  (option.map fun value => (name, write value)).toList

/-- A member for a list that is not empty. -/
def listMember (name : String) (items : List Json) : List (String × Json) :=
  if items.isEmpty then [] else [(name, .array items)]

/-- The members of the first section. -/
def applierMembers (applier : ApplierSection) : List (String × Json) :=
  member "reject_unversioned" .bool applier.rejectUnversioned
    ++ member "validate_snapshot" .bool applier.validateSnapshot

/-- The members of the second section. -/
def loggingMembers (logging : LoggingSection) : List (String × Json) :=
  member "level" .string logging.level ++ member "format" .string logging.format

/-- A property entry as JSON. -/
def entryJson (entry : PropertyEntry) : Json :=
  .object <|
    [("path", .string entry.path), ("kind", .string entry.kind)]
      ++ member "default" id entry.default ++ listMember "values" entry.values

/-- The members of the third section. -/
def schemaMembers (schema : SchemaSection) : List (String × Json) :=
  member "builtin" .bool schema.builtin
    ++ listMember "properties" (schema.properties.map entryJson)

/-- The configuration as JSON. -/
def toJson (config : Config) : Json :=
  .object [("applier", .object (applierMembers config.applier)),
    ("logging", .object (loggingMembers config.logging)),
    ("schema", .object (schemaMembers config.schema))]

/-- The configuration as a TOML table. There is none when a default or an allowed value holds a null
or an integer beyond the signed 64-bit range. -/
def toToml? (config : Config) : Option Toml := Toml.ofJson? config.toJson

/-- The configuration that a TOML text describes; `source` names the text in errors. -/
def parse (toml : Toml.TextLayer) (source text : String) : Except ConfigError Config :=
  match (toml.parse text).bind ofToml? with
  | some config => .ok config
  | none => .error (.unreadable source "malformed configuration")

/-- The TOML text of a configuration. -/
def render (toml : Toml.TextLayer) (config : Config) : Except ConfigError String :=
  match config.toToml? with
  | some (.table members) => .ok (toml.render members)
  | _ => .error (.unreadable "<serialization>" "a value has no TOML form")

end Config

end PropertyTree
