import PropertyTree.Session
import PropertyTree.Text.Blank
import PropertyTree.Text.Lines
/-!
# Replaying an event log

A log holds one wire event a line; blank lines are skipped but counted. Each event is applied as a
document. A line that fails is reported by its number, from one, and does not stop the replay. How a
line is read is given: `decode` gives the event that stands in it or says why there is none.
-/

namespace PropertyTree

/-- Why a line of a log failed. -/
inductive LineError where
  /-- The line is no wire event. -/
  | undecodable (reason : String)
  /-- The event or a part of it was refused. -/
  | refused (failure : Failure)
deriving DecidableEq

/-- The wording of a line error. -/
def LineError.message : LineError → String
  | .undecodable reason => s!"invalid event: {reason}"
  | .refused failure => failure.message

/-- A failed line of a log. -/
structure LineFailure where
  line : Nat
  error : LineError
deriving DecidableEq

/-- What became of the events of a log. -/
structure ReplaySummary where
  applied : Nat
  noOps : Nat
  failures : List LineFailure
deriving DecidableEq

namespace ReplaySummary

/-- The summary of no lines. -/
def none : ReplaySummary := ⟨0, 0, []⟩

/-- The summary of two parts of a log. -/
def append (first second : ReplaySummary) : ReplaySummary :=
  ⟨first.applied + second.applied, first.noOps + second.noOps, first.failures ++ second.failures⟩

/-- The summary of a line with one failure. -/
def ofError (line : Nat) (error : LineError) : ReplaySummary := ⟨0, 0, [⟨line, error⟩]⟩

/-- The summary of a line whose event has this report. -/
def ofReport (line : Nat) (report : Report) : ReplaySummary :=
  ⟨report.appliedCount, report.noOpCount,
    report.failures.map fun (_, failure) => ⟨line, .refused failure⟩⟩

end ReplaySummary

namespace Session

variable (decode : String → Except String WireEvent) (depth : Nat)

/-- Replays the line with this number. -/
def replayLine (session : Session) (number : Nat) (line : String) : Session × ReplaySummary :=
  if Text.isBlank line then (session, .none)
  else
    match decode line with
    | .error reason => (session, .ofError number (.undecodable reason))
    | .ok event =>
      let step := session.applyDocument depth event
      match step.result with
      | .error failure => (step.session, .ofError number (.refused failure))
      | .ok report => (step.session, .ofReport number report)

/-- Replays lines that are numbered from `number` on. -/
def replayLines (session : Session) (number : Nat) : List String → Session × ReplaySummary
  | [] => (session, .none)
  | line :: rest =>
    let (session, first) := session.replayLine decode depth number line
    let (session, others) := replayLines session (number + 1) rest
    (session, first.append others)

/-- Replays a whole log. -/
def replay (session : Session) (log : String) : Session × ReplaySummary :=
  session.replayLines decode depth 1 (Text.lines log)

end Session

end PropertyTree
