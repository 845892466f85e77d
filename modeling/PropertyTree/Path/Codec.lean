import PropertyTree.Json.Basic
import PropertyTree.Path
/-!
# Paths as JSON

A path is written as its dotted key and read back from one.
-/

namespace PropertyTree.Path

/-- Why a JSON value is no path. -/
inductive Misfit where
  | notText
  | malformed (error : PathError)
deriving DecidableEq

/-- The path that a JSON value stands for. -/
def ofJson : Json → Except Misfit Path
  | .string key => (parse key).mapError .malformed
  | _ => .error .notText

/-- The JSON form of a path. -/
def toJson (path : Path) : Json := .string path.dotted

end PropertyTree.Path
