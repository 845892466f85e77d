import PropertyTree.Json.Reader
import PropertyTree.Path
/-!
# Failures

Each concern has its own causes of failure, with a wording and a stable code; a `Failure` is one of
them. Paths and values appear in them as text. Only a failure to know a property is a mismatch
between the schemas of the two sides.
-/

namespace PropertyTree

/-- Why a path or a value does not fit the schema. -/
inductive SchemaError where
  | unknownProperty (path : String)
  | typeMismatch (path expected found : String)
deriving DecidableEq

/-- The wording of a schema error. -/
def SchemaError.message : SchemaError → String
  | .unknownProperty path => s!"unknown property '{path}'"
  | .typeMismatch path expected found => s!"property '{path}' expects {expected}, got {found}"

/-- The stable code of a schema error. -/
def SchemaError.code : SchemaError → String
  | .unknownProperty _ => "UNKNOWN_PROPERTY"
  | .typeMismatch _ _ _ => "TYPE_MISMATCH"

/-- Why an event says nothing that could be applied. -/
inductive EventError where
  | missingValue (path : String)
  | nonScalarValue (path found : String)
  | invalidDocumentVersion (found : String)
deriving DecidableEq

/-- The wording of an event error. -/
def EventError.message : EventError → String
  | .missingValue path => s!"set event for '{path}' carries no value"
  | .nonScalarValue path found => s!"value for '{path}' must be a scalar, got {found}"
  | .invalidDocumentVersion found =>
    s!"property document version must be a non-negative integer, got {found}"

/-- The stable code of an event error. -/
def EventError.code (_ : EventError) : String := "INVALID_EVENT"

/-- Why the store takes no leaf at a path. -/
inductive WriteError where
  /-- A path above holds a leaf. -/
  | pathConflict (path blocking : String)
  /-- The path itself holds a branch. -/
  | branchConflict (path : String) (leaves : Nat)
  | unversionedWrite (path : String)
deriving DecidableEq

/-- The wording of a write error. -/
def WriteError.message : WriteError → String
  | .pathConflict path blocking =>
    s!"cannot write '{path}': ancestor '{blocking}' holds a value"
  | .branchConflict path leaves =>
    s!"cannot write '{path}': it holds {leaves} nested value(s)"
  | .unversionedWrite path => s!"unversioned write to '{path}' rejected"

/-- The stable code of a write error. -/
def WriteError.code : WriteError → String
  | .pathConflict _ _ | .branchConflict _ _ => "PATH_CONFLICT"
  | .unversionedWrite _ => "UNVERSIONED_WRITE"

/-- Why a snapshot cannot be loaded. -/
inductive SnapshotError where
  | nonScalarLeaf (path : String)
  /-- A key that no path can address. -/
  | invalidKey (parent key : String)
  | unknownProperty (path : String)
  | schema (error : SchemaError)
  /-- The text is not JSON. -/
  | malformed (fault : Json.Fault)
  /-- The text is JSON that is no snapshot. -/
  | unreadable (reason : String)
deriving DecidableEq

/-- The wording of a snapshot error. -/
def SnapshotError.message : SnapshotError → String
  | .nonScalarLeaf path => s!"snapshot leaf '{path}' is not a scalar"
  | .invalidKey parent key =>
    s!"snapshot key '{key}' under '{parent}' is not a valid path segment"
  | .unknownProperty path => s!"snapshot leaf '{path}' is not a known property"
  | .schema error => s!"snapshot leaf rejected: {error.message}"
  | .malformed fault => s!"snapshot could not be parsed: {fault.message}"
  | .unreadable reason => s!"snapshot could not be parsed: {reason}"

/-- The stable code of a snapshot error. -/
def SnapshotError.code (_ : SnapshotError) : String := "INVALID_SNAPSHOT"

/-- Why a configuration cannot be used. -/
inductive ConfigError where
  | fileNotFound (path : String)
  | unreadable (path reason : String)
  | invalid (field reason : String)
deriving DecidableEq

/-- The wording of a configuration error. -/
def ConfigError.message : ConfigError → String
  | .fileNotFound path => s!"config file not found: {path}"
  | .unreadable path reason => s!"failed to parse config {path}: {reason}"
  | .invalid field reason => s!"invalid config value for {field}: {reason}"

/-- The stable code of a configuration error. -/
def ConfigError.code (_ : ConfigError) : String := "CONFIG_ERROR"

/-- A failure of any concern. -/
inductive Failure where
  | path (error : PathError)
  | schema (error : SchemaError)
  | event (error : EventError)
  | write (error : WriteError)
  | snapshot (error : SnapshotError)
  | config (error : ConfigError)
deriving DecidableEq

namespace Failure

/-- The wording of a failure. -/
def message : Failure → String
  | .path error => error.message
  | .schema error => error.message
  | .event error => error.message
  | .write error => error.message
  | .snapshot error => error.message
  | .config error => s!"Configuration error: {error.message}"

/-- The stable code of a failure. -/
def code : Failure → String
  | .path error => error.code
  | .schema error => error.code
  | .event error => error.code
  | .write error => error.code
  | .snapshot error => error.code
  | .config error => error.code

/-- The failure shows that the two sides disagree on which properties there are. -/
def isSchemaMismatch : Failure → Bool
  | .schema (.unknownProperty _) | .snapshot (.unknownProperty _) => true
  | _ => false

end Failure

end PropertyTree
