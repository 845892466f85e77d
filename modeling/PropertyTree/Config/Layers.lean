import PropertyTree.Config.Codec
import PropertyTree.Config.Schema
/-!
# Layered configuration

A configuration is resolved from layers: the file of the user, the file of the project, environment
variables and the command line. What a later layer gives overrides what earlier ones gave, and
property entries accumulate. Only the outcome is validated, so an earlier layer may be wrong where a
later one overrides it.
-/

namespace PropertyTree

namespace Config

/-- The configuration with what `layer` gives in place of what it gives itself. -/
def merge (base layer : Config) : Config where
  applier :=
    { rejectUnversioned := layer.applier.rejectUnversioned <|> base.applier.rejectUnversioned
      validateSnapshot := layer.applier.validateSnapshot <|> base.applier.validateSnapshot }
  logging :=
    { level := layer.logging.level <|> base.logging.level
      format := layer.logging.format <|> base.logging.format }
  schema :=
    { builtin := layer.schema.builtin <|> base.schema.builtin
      properties := base.schema.properties ++ layer.schema.properties }

end Config

/-- The options that can be given outside of files. -/
structure Overrides where
  logLevel : Option String
  logFormat : Option String
  rejectUnversioned : Option Bool
  validateSnapshot : Option Bool
deriving DecidableEq

namespace Overrides

/-- No option is given. -/
def none : Overrides := ⟨.none, .none, .none, .none⟩

/-- The overrides as a layer of their own. -/
def layer (overrides : Overrides) : Config :=
  ⟨⟨overrides.rejectUnversioned, overrides.validateSnapshot⟩,
    ⟨overrides.logLevel, overrides.logFormat⟩, ⟨.none, []⟩⟩

/-- A switch in the environment; any other text than these two is ignored. -/
def readSwitch? (text : String) : Option Bool :=
  if text = "true" then some true else if text = "false" then some false else .none

/-- The overrides that environment variables give. -/
def ofEnvironment (lookup : String → Option String) : Overrides :=
  ⟨lookup "PROPSYNC_LOG_LEVEL", lookup "PROPSYNC_LOG_FORMAT",
    (lookup "PROPSYNC_REJECT_UNVERSIONED").bind readSwitch?,
    (lookup "PROPSYNC_VALIDATE_SNAPSHOT").bind readSwitch?⟩

end Overrides

/-- What stands at a path of the file system. -/
inductive FileContent where
  | text (content : String)
  /-- Nothing is there. -/
  | missing
  /-- A directory is there. -/
  | directory
  /-- A part of the path is a file and not a directory. -/
  | notDirectory
  /-- A file is there that is not valid text. -/
  | invalidText

namespace FileContent

/-- Something stands at the path. -/
def doesExist : FileContent → Bool
  | .missing | .notDirectory => false
  | .text _ | .directory | .invalidText => true

end FileContent

namespace Config

/-- The layer of a configuration file; one that does not exist gives nothing. -/
def ofFile (toml : Toml.TextLayer) (source : String) (content : FileContent) :
    Except ConfigError Config :=
  if !content.doesExist then .ok empty
  else
    match content with
    | .text text => parse toml source text
    | _ => .error (.fileNotFound source)

/-- A configuration file: the name it has in errors, and what stands there. -/
structure Source where
  name : String
  content : FileContent

/-- Resolves all layers, from the user's file up to the command line, and validates the outcome. -/
def load (toml : Toml.TextLayer) (user : Option Source) (project : Source)
    (environment commandLine : Overrides) : Except ConfigError Config := do
  let userLayer ← match user with
    | some file => ofFile toml file.name file.content
    | none => .ok empty
  let projectLayer ← ofFile toml project.name project.content
  let config :=
    (((empty.merge userLayer).merge projectLayer).merge environment.layer).merge
      commandLine.layer
  config.validate
  .ok config

end Config

end PropertyTree
