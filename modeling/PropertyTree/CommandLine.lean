import PropertyTree.Config.Layers
import PropertyTree.Replay
/-!
# The command line

The program replays an event log on a snapshot and prints the final tree, or it prints the effective
schema. Arguments are read first, then the configuration is resolved, and only then is anything
replayed. What the program does is a function of its arguments, the environment and the files; the
files are given as a function from paths to what stands there.
-/

namespace PropertyTree

/-- What the program is asked to do. -/
inductive Task where
  | replay (snapshot events : String)
  | schema
deriving DecidableEq

/-- The arguments of a run. -/
structure Invocation where
  /-- The directory of the project's configuration file. -/
  directory : String
  logLevel : Option String
  jsonLogs : Bool
  task : Task
deriving DecidableEq

/-- What the arguments ask for. -/
inductive Request where
  | run (invocation : Invocation)
  | version
  /-- The arguments cannot be used. -/
  | misuse
deriving DecidableEq

namespace Arguments

/-- The options that take a value. -/
inductive Setting where
  | config
  | logLevel
  | snapshot
  | events
deriving DecidableEq

/-- The two subcommands. -/
inductive Command where
  | replay
  | schema
deriving DecidableEq

/-- What has been read of the arguments. -/
structure Seen where
  command : Option Command
  /-- All settings with their values, the last one first. -/
  settings : List (Setting × String)
  /-- The settings since the subcommand, or since the start. -/
  recent : List Setting
  jsonLogs : Bool
  /-- The switch for logs in JSON stood among the recent arguments. -/
  recentJsonLogs : Bool

namespace Seen

/-- Nothing has been read. -/
def nothing : Seen := ⟨none, [], [], false, false⟩

/-- The setting of this option name; two of them belong to one subcommand. -/
def setting? (seen : Seen) (name : String) : Option Setting :=
  match name with
  | "--config" => some .config
  | "--log-level" => some .logLevel
  | "--snapshot" => if seen.command = some .replay then some .snapshot else none
  | "--events" => if seen.command = some .replay then some .events else none
  | _ => none

/-- The value that counts for a setting: the last one. -/
def value? (seen : Seen) (setting : Setting) : Option String :=
  (seen.settings.find? fun given => given.1 == setting).map (·.2)

/-- Takes down a setting. It is given at most once before the subcommand and once after it, and a
path is never empty. -/
def add? (seen : Seen) (setting : Setting) (value : String) : Option Seen :=
  if seen.recent.contains setting || (setting != .logLevel && value == "") then none
  else
    some { seen with
      settings := (setting, value) :: seen.settings
      recent := setting :: seen.recent }

/-- Takes down the switch for logs in JSON. -/
def addJsonLogs? (seen : Seen) : Option Seen :=
  if seen.recentJsonLogs then none
  else some { seen with jsonLogs := true, recentJsonLogs := true }

/-- Takes down the subcommand. -/
def addCommand (seen : Seen) (command : Command) : Seen :=
  { seen with command := some command, recent := [], recentJsonLogs := false }

/-- What the arguments ask for in the end. -/
def request (seen : Seen) : Request :=
  let task? : Option Task :=
    match seen.command with
    | none => none
    | some .schema => some .schema
    | some .replay => do some (.replay (← seen.value? .snapshot) (← seen.value? .events))
  match task? with
  | some task =>
    .run ⟨(seen.value? .config).getD ".", seen.value? .logLevel, seen.jsonLogs, task⟩
  | none => .misuse

end Seen

/-- An option with its value in one argument, split at the first equals sign. -/
def splitEquals (argument : String) : String × Option String :=
  let chars := argument.toList
  match chars.dropWhile (· != '=') with
  | [] => (argument, none)
  | _ :: value => (.ofList (chars.takeWhile (· != '=')), some (.ofList value))

/-- The argument looks like an option and not like a value. -/
def isOption (argument : String) : Bool :=
  match argument.toList with
  | '-' :: _ :: _ => true
  | _ => false

/-- The argument asks for the version, in its long or in its short form. -/
def asksVersion (argument : String) : Bool :=
  match argument.toList with
  | '-' :: 'V' :: _ => true
  | _ => argument == "--version"

/-- Reads an argument that is no setting, in front of `rest`; `read` reads on. -/
def readPlain (read : Seen → Request) (seen : Seen) (argument : String) (rest : List String) :
    Request :=
  if argument = "--" then if rest.isEmpty then seen.request else .misuse
  else if argument = "--json-logs" then
    match seen.addJsonLogs? with
    | some seen => read seen
    | none => .misuse
  else if seen.command.isSome then .misuse
  else if asksVersion argument then .version
  else if argument = "replay" then read (seen.addCommand .replay)
  else if argument = "schema" then read (seen.addCommand .schema)
  else .misuse

/-- Reads arguments from left to right; the first that decides does. -/
def read (seen : Seen) : List String → Request
  | [] => seen.request
  | [argument] =>
    let (name, attached) := splitEquals argument
    match seen.setting? name with
    | some setting =>
      match attached.bind (seen.add? setting) with
      | some seen => seen.request
      | none => .misuse
    | none => readPlain Seen.request seen argument []
  | argument :: next :: rest =>
    let (name, attached) := splitEquals argument
    match seen.setting? name with
    | some setting =>
      match attached with
      | some value =>
        match seen.add? setting value with
        | some seen => read seen (next :: rest)
        | none => .misuse
      | none =>
        match if isOption next then none else seen.add? setting next with
        | some seen => read seen rest
        | none => .misuse
    | none => readPlain (read · (next :: rest)) seen argument (next :: rest)

end Arguments

/-- What the arguments of the program ask for. -/
def Request.ofArguments (arguments : List String) : Request := Arguments.read .nothing arguments

/-- The cause that ended a run. -/
inductive Cause where
  | config (error : ConfigError)
  | snapshot (error : SnapshotError)
  /-- A file that had to be read. -/
  | file (content : FileContent)

/-- The wording of a cause. -/
def Cause.message : Cause → String
  | .config error => error.message
  | .snapshot error => error.message
  | .file .missing => "No such file or directory (os error 2)"
  | .file .directory => "Is a directory (os error 21)"
  | .file .notDirectory => "Not a directory (os error 20)"
  | .file .invalidText | .file (.text _) => "stream did not contain valid UTF-8"

/-- What a run reports on the error output. -/
inductive Diagnostic where
  /-- The arguments could not be used. -/
  | usage
  /-- The run ended while something was being done. -/
  | fatal (context : String) (cause : Cause)
  /-- A line of the event log failed. -/
  | failedLine (events : String) (failure : LineFailure)

/-- A text in which every line is indented by four blanks. -/
def indent (text : String) : String :=
  "\n".intercalate ((text.splitOn "\n").map ("    " ++ ·))

/-- The text of a diagnostic. -/
def Diagnostic.text : Diagnostic → String
  | .usage => "Usage: propsync [--config DIR] [--log-level LEVEL] [--json-logs] " ++
    "(schema | replay --snapshot FILE --events FILE)"
  | .fatal context cause => s!"Error: {context}\n\nCaused by:\n" ++ indent cause.message
  | .failedLine events failure => s!"{events}:{failure.line}: {failure.error.message}"

/-- What a run leaves behind: its exit code and what it writes. -/
structure RunResult where
  exitCode : UInt32
  output : String
  diagnostics : List Diagnostic

namespace CommandLine

/-- The name and the version of the program. -/
def versionText : String := "propsync 0.1.0"

/-- A path inside a directory. -/
def join (directory name : String) : String :=
  if directory = "" then name
  else if directory.toList.getLast? = some '/' then directory ++ name else directory ++ "/" ++ name

/-- The user's configuration file, when there is a home directory. -/
def userConfigPath? (environment : String → Option String) : Option String :=
  (environment "HOME" <|> environment "USERPROFILE").map fun home =>
    join (join home ".propsync") "config.toml"

/-- The project's configuration file. -/
def projectConfigPath (directory : String) : String := join directory "propsync.toml"

/-- A run that ends with an error. -/
def fatal (context : String) (cause : Cause) : RunResult := ⟨1, "", [.fatal context cause]⟩

/-- How the program reads JSON: whole values, and the events in the lines of a log. -/
structure Readers where
  value : String → Except Json.Fault Json
  event : String → Except String WireEvent

/-- The readers that the program comes with. -/
def builtinReaders : Readers :=
  ⟨Json.parse, fun line => (WireEvent.parse line).mapError (·.message)⟩

/-- Replays a log on a snapshot. -/
def replay (readers : Readers) (depth : Nat) (files : String → FileContent) (session : Session)
    (snapshot events : String) : RunResult :=
  match files snapshot with
  | .text snapshotText =>
    let loaded := session.bulkLoadText readers.value snapshotText
    match loaded.result with
    | .error error => fatal s!"loading snapshot {snapshot}" (.snapshot error)
    | .ok _ =>
      match files events with
      | .text log =>
        let (session, summary) := loaded.session.replay readers.event depth log
        ⟨if summary.failures.isEmpty then 0 else 1, session.store.toJson.pretty 0 ++ "\n",
          summary.failures.map (.failedLine events)⟩
      | content => fatal s!"reading event log {events}" (.file content)
  | content => fatal s!"reading snapshot {snapshot}" (.file content)

/-- Does what is asked under a resolved configuration. Nobody has subscribed, so no pass starts
another. -/
def perform (files : String → FileContent) (session : Session) : Task → RunResult
  | .replay snapshot events => replay builtinReaders 0 files session snapshot events
  | .schema => ⟨0, session.schema.toJson.pretty 0 ++ "\n", []⟩

/-- The configuration of an invocation. -/
def configOf (environment : String → Option String) (files : String → FileContent)
    (invocation : Invocation) : Except ConfigError Config :=
  let user := (userConfigPath? environment).map fun path => ⟨path, files path⟩
  let project := projectConfigPath invocation.directory
  let commandLine : Overrides :=
    ⟨invocation.logLevel, if invocation.jsonLogs then some "json" else none, none, none⟩
  Config.load Toml.builtinLayer user ⟨project, files project⟩ (.ofEnvironment environment)
    commandLine

/-- Runs an invocation. -/
def runInvocation (environment : String → Option String) (files : String → FileContent)
    (invocation : Invocation) : RunResult :=
  let resolved : Except ConfigError Session := do
    Session.ofConfig (← configOf environment files invocation)
  match resolved with
  | .error error => fatal s!"loading config from {invocation.directory}" (.config error)
  | .ok session => perform files session invocation.task

/-- Runs the program. -/
def run (environment : String → Option String) (files : String → FileContent)
    (arguments : List String) : RunResult :=
  match Request.ofArguments arguments with
  | .misuse => ⟨2, "", [.usage]⟩
  | .version => ⟨0, versionText ++ "\n", []⟩
  | .run invocation => runInvocation environment files invocation

end CommandLine

end PropertyTree
