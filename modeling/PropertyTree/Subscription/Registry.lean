import PropertyTree.Event.Basic
/-!
# Subscriptions

A subscription stands on a path and hears of the changes at or below it. Handles number the
subscriptions of a registry from zero and are never given twice. What a subscriber does when it is
called depends on what it hears: its script gives, for each notification, a list of actions on the
same registry.
-/

namespace PropertyTree

/-- What a subscriber does when it hears of a change. -/
inductive Action where
  /-- Asks for the number of subscriptions. -/
  | count
  | unsubscribe (handle : Nat)
  /-- Ends the subscription that is being called. -/
  | unsubscribeSelf
  | subscribe (key : String) (script : Notification → List Action)
  /-- Tells the subscribers of a path of a change. -/
  | notify (key : String) (old new : Option Value)
  /-- Breaks off: no later action of the script is run. -/
  | panic

/-- What a subscriber does, given what it hears. -/
abbrev Script := Notification → List Action

/-- A live subscription. -/
structure Subscription where
  handle : Nat
  script : Script

/-- The subscriptions of a session, by path and in the order in which they were made. -/
structure Registry where
  nextHandle : Nat
  byPath : Dictionary Path (List Subscription)

namespace Registry

/-- The registry without subscriptions. -/
def empty : Registry := ⟨0, .empty⟩

/-- The subscriptions on just this path. -/
def on (registry : Registry) (path : Path) : List Subscription :=
  (registry.byPath.get? path).getD []

/-- Adds a subscription and gives its handle. -/
def subscribe (registry : Registry) (path : Path) (script : Script) : Registry × Nat :=
  let handle := registry.nextHandle
  (⟨handle + 1, registry.byPath.insert path (registry.on path ++ [⟨handle, script⟩])⟩, handle)

/-- Adds a subscription on a dotted key. -/
def subscribeKey (registry : Registry) (key : String) (script : Script) :
    Except PathError (Registry × Nat) := do
  .ok (registry.subscribe (← Path.parse key) script)

/-- The subscriptions without the one that has this handle. -/
def without (handle : Nat) (subscriptions : List Subscription) : List Subscription :=
  subscriptions.eraseP (·.handle = handle)

/-- Ends a subscription, if there is one with this handle. A path without subscriptions is
dropped. -/
def unsubscribe (registry : Registry) (handle : Nat) : Registry × Bool :=
  match registry.byPath.entries.find? fun entry => entry.2.any (·.handle = handle) with
  | none => (registry, false)
  | some (path, subscriptions) =>
    let left := without handle subscriptions
    let byPath :=
      if left.isEmpty then registry.byPath.erase path else registry.byPath.insert path left
    (⟨registry.nextHandle, byPath⟩, true)

/-- All subscriptions, by path. -/
def subscriptions (registry : Registry) : List Subscription :=
  registry.byPath.entries.flatMap (·.2)

/-- The number of subscriptions. -/
def count (registry : Registry) : Nat := registry.subscriptions.length

/-- The number of subscriptions on just this path. -/
def countOn (registry : Registry) (path : Path) : Nat := (registry.on path).length

/-- The number of paths with a subscription. -/
def pathCount (registry : Registry) : Nat := registry.byPath.size

/-- The subscriptions that hear of a change of a leaf: those on the paths above it, coarse to fine,
and then those on the leaf itself. -/
def targets (registry : Registry) (leaf : Path) : List Subscription :=
  (leaf.ancestors ++ [leaf]).flatMap registry.on

/-- A summary of the registry for a reader of logs. -/
def summary (registry : Registry) : String :=
  s!"SubscriptionRegistry \x7b paths: {registry.pathCount}, subscribers: {registry.count} \x7d"

end Registry

end PropertyTree
