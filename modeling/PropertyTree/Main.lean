import PropertyTree.CommandLine
/-!
# The program

The outer layer: it collects the arguments, the environment and the files that a run may read, and
writes what the run leaves behind.
-/

namespace PropertyTree

/-- What stands at a path of the file system. -/
def readContent (path : String) : IO FileContent := do
  match ← (IO.FS.readFile path).toBaseIO with
  | .ok text => return .text text
  | .error (.inappropriateType _ code _) =>
    return if code = 21 then .directory else .notDirectory
  | .error (.noFileOrDirectory ..) => return .missing
  | .error _ => return .invalidText

/-- The environment variables that a run looks at. -/
def variableNames : List String :=
  ["HOME", "USERPROFILE", "PROPSYNC_LOG_LEVEL", "PROPSYNC_LOG_FORMAT",
    "PROPSYNC_REJECT_UNVERSIONED", "PROPSYNC_VALIDATE_SNAPSHOT"]

/-- The files that a run may read. -/
def filesOf (environment : String → Option String) : Request → List String
  | .run invocation =>
    (CommandLine.userConfigPath? environment).toList
      ++ CommandLine.projectConfigPath invocation.directory
      :: (match invocation.task with
        | .replay snapshot events => [snapshot, events]
        | .schema => [])
  | .version | .misuse => []

end PropertyTree

open PropertyTree in
/-- Runs the program on its arguments. -/
def main (arguments : List String) : IO UInt32 := do
  let settings ← variableNames.mapM fun name => return (name, ← IO.getEnv name)
  let environment (name : String) : Option String := (settings.lookup name).join
  let contents ← (filesOf environment (.ofArguments arguments)).mapM fun path =>
    return (path, ← readContent path)
  let files (path : String) : FileContent := (contents.lookup path).getD .missing
  let result := CommandLine.run environment files arguments
  IO.print result.output
  for diagnostic in result.diagnostics do
    IO.eprintln diagnostic.text
  return result.exitCode
