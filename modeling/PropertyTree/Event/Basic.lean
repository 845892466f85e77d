import PropertyTree.Event.Wire
import PropertyTree.Failure
import PropertyTree.Value
/-!
# Events and what they bring about

An `Event` is a checked wire event: its key is a path and its value a scalar. Applying one either
changes a leaf or leaves the store as it is, and an `Outcome` says which. A `Notification` is what a
subscriber hears of a change.
-/

namespace PropertyTree

/-- A checked property event. A set without a version applies whatever version is held. -/
inductive Event where
  | set (path : Path) (value : Value) (version : Option Version)
  | delete (path : Path)
deriving DecidableEq

namespace Event

/-- The path that the event is about. -/
def path : Event → Path
  | .set path _ _ => path
  | .delete path => path

/-- Whether the event sets or deletes. -/
def kind : Event → EventKind
  | .set _ _ _ => .set
  | .delete _ => .delete

/-- Checks the value of a set event. -/
def scalar (path : String) (value : Json) : Except Failure Value :=
  match Value.ofJson? value with
  | some v => .ok v
  | none => .error (.event (.nonScalarValue path value.kindName))

/-- Checks a wire event: first its key, then its value. -/
def ofWire (event : WireEvent) : Except Failure Event := do
  let path ← (Path.parse event.key).mapError Failure.path
  match event with
  | .delete _ => .ok (.delete path)
  | .set key none _ => .error (.event (.missingValue key))
  | .set key (some value) version => do .ok (.set path (← scalar key value) version)

end Event

/-- A change of one leaf. -/
structure Change where
  path : Path
  old : Option Value
  /-- Absent when the leaf was deleted. -/
  new : Option Value
  /-- The version that the leaf holds after the change. -/
  version : Option Version
deriving DecidableEq

/-- Why an event changes no value. -/
inductive NoOp where
  /-- The version held is greater than the incoming one. -/
  | stale (current incoming : Version)
  /-- The value held is the incoming one. -/
  | unchanged
  /-- There is no leaf to delete. -/
  | absent
deriving DecidableEq

/-- What became of an event that was accepted. -/
inductive Outcome where
  | applied (change : Change)
  | noOp (reason : NoOp)
deriving DecidableEq

/-- The change that an outcome reports. -/
def Outcome.change? : Outcome → Option Change
  | .applied change => some change
  | .noOp _ => none

/-- The event changed a value. -/
def Outcome.isApplied : Outcome → Bool
  | .applied _ => true
  | .noOp _ => false

/-- What a subscriber hears of a change; the path is that of the changed leaf. -/
structure Notification where
  path : Path
  old : Option Value
  new : Option Value
deriving DecidableEq

/-- What subscribers hear of a change. -/
def Change.notification (change : Change) : Notification := ⟨change.path, change.old, change.new⟩

end PropertyTree
