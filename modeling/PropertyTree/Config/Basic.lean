import PropertyTree.Failure
import PropertyTree.Text.Blank
/-!
# Configuration

A configuration has three sections. Every option may be left out, which is not the same as giving it
its default: a layer only overrides what it gives. The property entries of all layers accumulate.
-/

namespace PropertyTree

/-- How log lines are written. -/
inductive LogFormat where
  | pretty
  | json
deriving DecidableEq

namespace LogFormat

/-- The name of the format. -/
def name : LogFormat → String
  | .pretty => "pretty"
  | .json => "json"

/-- The format of this name, or the wording of the refusal. -/
def ofName (name : String) : Except String LogFormat :=
  if name = "pretty" then .ok .pretty
  else if name = "json" then .ok .json
  else .error s!"unknown log format '{name}', expected \"pretty\" or \"json\""

end LogFormat

/-- How strictly events and snapshots are taken. -/
structure ApplierSection where
  rejectUnversioned : Option Bool
  validateSnapshot : Option Bool
deriving DecidableEq

/-- What is logged, and how. -/
structure LoggingSection where
  level : Option String
  format : Option String
deriving DecidableEq

/-- A property declared by the configuration. -/
structure PropertyEntry where
  path : String
  kind : String
  default : Option Json
  /-- The allowed values, for the kind that lists them. -/
  values : List Json
deriving DecidableEq

/-- Which properties there are. -/
structure SchemaSection where
  /-- Start from the built-in properties. -/
  builtin : Option Bool
  properties : List PropertyEntry
deriving DecidableEq

/-- A configuration. -/
structure Config where
  applier : ApplierSection
  logging : LoggingSection
  schema : SchemaSection
deriving DecidableEq

/-- Start from the built-in properties; by default one does. -/
def SchemaSection.usesBuiltin (spec : SchemaSection) : Bool := spec.builtin.getD true

namespace Config

/-- The configuration that gives nothing. -/
def empty : Config := ⟨⟨none, none⟩, ⟨none, none⟩, ⟨none, []⟩⟩

instance : Inhabited Config := ⟨empty⟩

/-- Sets without a version fail; by default they do not. -/
def rejectUnversioned (config : Config) : Bool := config.applier.rejectUnversioned.getD false

/-- Snapshots are checked against the schema; by default they are not. -/
def validateSnapshot (config : Config) : Bool := config.applier.validateSnapshot.getD false

/-- The level to log at. -/
def level (config : Config) : String := config.logging.level.getD "info"

/-- The format to log in; a name that is none falls back to the default. -/
def format (config : Config) : LogFormat :=
  match config.logging.format.map LogFormat.ofName with
  | some (.ok format) => format
  | _ => .pretty

end Config

end PropertyTree
