import PropertyTree.Schema.Basic
import PropertyTree.Store.Basic
/-!
# Applying events

Per path the write with the greatest version wins. A set is checked against the schema, then for a
missing version, then against the leaf that is held; a delete only needs a declared path. A refused
event changes nothing and does not stop the events after it.
-/

namespace PropertyTree

/-- How strictly events are taken. -/
structure Options where
  /-- Sets without a version fail. -/
  rejectUnversioned : Bool
deriving DecidableEq

namespace Store

variable (options : Options) (schema : Schema)

/-- Writes a leaf that the version rule admits. -/
def put (store : Store) (path : Path) (leaf : Leaf) :
    Except Failure (Store × Option Leaf) :=
  (store.write path leaf).mapError Failure.write

/-- Puts a value at a path that holds no leaf, or one that has admitted the write. -/
def change (store : Store) (path : Path) (leaf : Leaf) : Except Failure (Store × Outcome) := do
  let (after, replaced) ← store.put path leaf
  .ok (after, .applied ⟨path, replaced.map (·.value), some leaf.value, leaf.version⟩)

/-- Applies a set. An equal value is no change, though its version may move the one held. -/
def set (store : Store) (path : Path) (value : Value) (incoming : Option Version) :
    Except Failure (Store × Outcome) := do
  (schema.check path value).mapError Failure.schema
  if incoming.isNone && options.rejectUnversioned then
    .error (.write (.unversionedWrite path.dotted))
  else
    match store.leaf? path with
    | none => store.change path ⟨value, incoming⟩
    | some held =>
      match held.refusal? incoming with
      | some reason => .ok (store, .noOp reason)
      | none =>
        let next := held.nextVersion incoming
        if held.value = value then
          if held.version = next then .ok (store, .noOp .unchanged)
          else do
            let (after, _) ← store.put path ⟨value, next⟩
            .ok (after, .noOp .unchanged)
        else store.change path ⟨value, next⟩

/-- Applies a delete. -/
def delete (store : Store) (path : Path) : Except Failure (Store × Outcome) := do
  let _ ← (schema.lookup path).mapError Failure.schema
  match store.erase? path with
  | none => .ok (store, .noOp .absent)
  | some (held, after) => .ok (after, .applied ⟨path, some held.value, none, none⟩)

/-- Applies a checked event. -/
def apply (store : Store) : Event → Except Failure (Store × Outcome)
  | .set path value version => store.set options schema path value version
  | .delete path => store.delete schema path

/-- Checks and applies a wire event. -/
def applyWire (store : Store) (event : WireEvent) : Except Failure (Store × Outcome) := do
  store.apply options schema (← Event.ofWire event)

/-- The store after an attempt, and what the attempt came to; a failed one leaves the store. -/
def settle (store : Store) :
    Except Failure (Store × Outcome) → Store × Except Failure Outcome
  | .ok (after, outcome) => (after, .ok outcome)
  | .error failure => (store, .error failure)

end Store

/-- What became of the events of a batch: the outcomes of those that were accepted and the failures
of the others, each with the position of its event. -/
structure Report where
  outcomes : List (Nat × Outcome)
  failures : List (Nat × Failure)

namespace Report

/-- The report of no events. -/
def empty : Report := ⟨[], []⟩

/-- Takes down the result of the event at a position. -/
def record (report : Report) (index : Nat) : Except Failure Outcome → Report
  | .ok outcome => { report with outcomes := report.outcomes ++ [(index, outcome)] }
  | .error failure => { report with failures := report.failures ++ [(index, failure)] }

/-- The number of events that changed a value. -/
def appliedCount (report : Report) : Nat :=
  report.outcomes.countP fun (_, outcome) => outcome.isApplied

/-- The number of events that were accepted and changed no value. -/
def noOpCount (report : Report) : Nat := report.outcomes.length - report.appliedCount

/-- The number of failed events. -/
def failureCount (report : Report) : Nat := report.failures.length

/-- The number of events. -/
def total (report : Report) : Nat := report.outcomes.length + report.failures.length

/-- Every event was accepted. -/
def isClean (report : Report) : Bool := report.failures.isEmpty

end Report

/-- A batch on its way: the store, what has been made of the changes so far, and the report. -/
structure Batch (σ : Type) where
  store : Store
  state : σ
  report : Report

namespace Store

variable (options : Options) (schema : Schema) {σ : Type} (onApplied : σ → Change → σ)

/-- Applies the events of a batch from the one at position `index` on, whatever becomes of each.
After an event that has changed a value, `onApplied` is run before the next event is applied. -/
def continueBatch (batch : Batch σ) (index : Nat) : List WireEvent → Batch σ
  | [] => batch
  | event :: rest =>
    let (store, result) := batch.store.settle (batch.store.applyWire options schema event)
    let state :=
      match result with
      | .ok (.applied change) => onApplied batch.state change
      | .ok (.noOp _) | .error _ => batch.state
    continueBatch ⟨store, state, batch.report.record index result⟩ (index + 1) rest

/-- Applies wire events in order. -/
def applyBatch (store : Store) (state : σ) (events : List WireEvent) : Batch σ :=
  continueBatch options schema onApplied ⟨store, state, .empty⟩ 0 events

end Store

end PropertyTree
