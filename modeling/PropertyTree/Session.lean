import PropertyTree.Config.Schema
import PropertyTree.Event.Document
import PropertyTree.Store.Apply
import PropertyTree.Store.Snapshot
import PropertyTree.Subscription.Pass
/-!
# Sessions

A session owns the properties of one login: a store, its schema and the subscriptions. It is loaded
from a snapshot, which tells nobody, and then fed with events; each change is told to the
subscribers, and passes nest at most `depth` deep in each other. What subscribers do concerns only
the subscriptions, never the store.
-/

namespace PropertyTree

/-- The property state of one login. -/
structure Session where
  store : Store
  schema : Schema
  registry : Registry
  options : Options
  /-- Snapshots with leaves that do not fit the schema are refused. -/
  validateSnapshot : Bool

/-- A session after an operation, its result, and what the subscribers did meanwhile. -/
structure Step (α : Type) where
  session : Session
  result : α
  trace : List TraceEntry

namespace Session

/-- A session without properties. -/
def new (schema : Schema) (options : Options) (validateSnapshot : Bool) : Session :=
  ⟨.empty, schema, .empty, options, validateSnapshot⟩

/-- The session that a configuration describes. -/
def ofConfig (config : Config) : Except ConfigError Session := do
  .ok (new (← config.buildSchema) ⟨config.rejectUnversioned⟩ config.validateSnapshot)

/-- Checks the leaves of a snapshot against a schema; the first that does not fit decides. -/
def checkLeaves (schema : Schema) : List (Path × Leaf) → Except SnapshotError Unit
  | [] => .ok ()
  | (path, leaf) :: rest =>
    if !schema.declares path then .error (.unknownProperty path.dotted)
    else
      match schema.check path leaf.value with
      | .error error => .error (.schema error)
      | .ok () => checkLeaves schema rest

/-- Checks what a snapshot has brought, if the session does so. -/
def checkStaged (session : Session) (staged : Store) : Except SnapshotError Unit :=
  if session.validateSnapshot then checkLeaves session.schema staged.leaves else .ok ()

/-- Replaces the contents of the store by a snapshot and gives its number of leaves. The snapshot is
loaded into a store of its own first, so one that is refused leaves the session as it is. -/
def bulkLoad (session : Session) (members : List (String × Json)) :
    Step (Except SnapshotError Nat) :=
  let (staged, loaded) := Store.empty.bulkLoad members
  match loaded with
  | .error error => ⟨session, .error error, []⟩
  | .ok count =>
    match session.checkStaged staged with
    | .error error => ⟨session, .error error, []⟩
    | .ok () => ⟨{ session with store := staged }, .ok count, []⟩

/-- Loads a snapshot from a text that holds a JSON object; `read` reads the text. -/
def bulkLoadText (read : String → Except Json.Fault Json) (session : Session) (text : String) :
    Step (Except SnapshotError Nat) :=
  match read text with
  | .error fault => ⟨session, .error (.malformed fault), []⟩
  | .ok (.object members) => session.bulkLoad members
  | .ok other =>
    ⟨session, .error (.unreadable s!"snapshot must be a JSON object, got {other.kindName}"), []⟩

variable (depth : Nat)

/-- The session after an attempt of its store. Subscribers are told of a change. -/
def settle (session : Session) (attempt : Except Failure (Store × Outcome)) :
    Step (Except Failure Outcome) :=
  let (store, result) := session.store.settle attempt
  match result with
  | .ok (.applied change) =>
    let pass := session.registry.notify depth change.notification
    ⟨{ session with store, registry := pass.registry }, result, pass.trace⟩
  | .ok (.noOp _) | .error _ => ⟨{ session with store }, result, []⟩

/-- Applies a checked event. -/
def apply (session : Session) (event : Event) : Step (Except Failure Outcome) :=
  session.settle depth (session.store.apply session.options session.schema event)

/-- Checks and applies a wire event. -/
def applyWire (session : Session) (event : WireEvent) : Step (Except Failure Outcome) :=
  session.settle depth (session.store.applyWire session.options session.schema event)

/-- Tells the subscribers of a change, after what they did before. -/
def relay (told : Registry × List TraceEntry) (change : Change) : Registry × List TraceEntry :=
  let pass := told.1.notify depth change.notification
  (pass.registry, told.2 ++ pass.trace)

/-- Applies wire events in order. Each change is told before the next event is applied. -/
def applyBatch (session : Session) (events : List WireEvent) : Step Report :=
  let batch := session.store.applyBatch session.options session.schema (relay depth)
    (session.registry, []) events
  ⟨{ session with store := batch.store, registry := batch.state.1 }, batch.report, batch.state.2⟩

/-- Applies checked events one by one, the first of them at position `index` of the report. -/
def applyEach (session : Session) (index : Nat) (report : Report) : List Event → Step Report
  | [] => ⟨session, report, []⟩
  | event :: rest =>
    let first := session.apply depth event
    let others := applyEach first.session (index + 1) (report.record index first.result) rest
    ⟨others.session, others.result, first.trace ++ others.trace⟩

/-- Applies a wire event that may carry a whole document. A document that does not expand is refused
before anything is applied. -/
def applyDocument (session : Session) (event : WireEvent) : Step (Except Failure Report) :=
  match Event.expand event with
  | .error failure => ⟨session, .error failure, []⟩
  | .ok events =>
    let step := session.applyEach depth 0 .empty events
    ⟨step.session, .ok step.result, step.trace⟩

/-- The value at a dotted key. -/
def getKey (session : Session) (key : String) : Except PathError (Option Value) := do
  .ok (session.store.get? (← Path.parse key))

/-- The stored value, or else the declared default. -/
def getOrDefault? (session : Session) (path : Path) : Option Value :=
  session.schema.valueOrDefault? (session.store.get? path) path

end Session

end PropertyTree
