import PropertyTree.Subscription.Registry
/-!
# Notification passes

A pass tells every subscriber of a change, and each does what its script says. Whom a pass calls is
settled before the first call: a subscription that is made during a pass waits for the next one, and
one that is ended is still called. A script may start a pass of its own. Passes nest in each other
without end, in principle; here they do so up to a given depth, and below it nobody is called. The
trace says what the subscribers did.
-/

namespace PropertyTree

/-- One thing that a called subscriber did. The first component is its handle. -/
inductive TraceEntry where
  | called (handle : Nat) (notification : Notification)
  | counted (handle : Nat) (count : Nat)
  | unsubscribed (handle : Nat) (found : Bool)
  | unsubscribedSelf (handle : Nat) (found : Bool)
  | subscribed (handle : Nat) (result : Except PathError Nat)
  /-- It has started a pass about this change, in which so many subscribers were called. -/
  | notified (handle : Nat) (notification : Notification) (called : Nat)
  /-- It has asked for a pass about a key that is no path. -/
  | misdirected (handle : Nat) (error : PathError)

/-- What a pass leaves behind. -/
structure PassResult where
  registry : Registry
  trace : List TraceEntry
  /-- How many subscribers were called. -/
  called : Nat

namespace Registry

/-- Performs the actions of the subscriber with this handle; `pass` is a pass that it starts. -/
def runScript (pass : Registry → Notification → PassResult) (handle : Nat) :
    List Action → Registry → Registry × List TraceEntry
  | [], registry => (registry, [])
  | action :: rest, registry =>
    let goOn (registry : Registry) (trace : List TraceEntry) : Registry × List TraceEntry :=
      let (registry, later) := runScript pass handle rest registry
      (registry, trace ++ later)
    match action with
    | .panic => (registry, [])
    | .count => goOn registry [.counted handle registry.count]
    | .unsubscribe target =>
      let (registry, found) := registry.unsubscribe target
      goOn registry [.unsubscribed handle found]
    | .unsubscribeSelf =>
      let (registry, found) := registry.unsubscribe handle
      goOn registry [.unsubscribedSelf handle found]
    | .subscribe key script =>
      match registry.subscribeKey key script with
      | .ok (registry, made) => goOn registry [.subscribed handle (.ok made)]
      | .error error => goOn registry [.subscribed handle (.error error)]
    | .notify key old new =>
      match Path.parse key with
      | .ok path =>
        let notification : Notification := ⟨path, old, new⟩
        let result := pass registry notification
        goOn result.registry (result.trace ++ [.notified handle notification result.called])
      | .error error => goOn registry [.misdirected handle error]

/-- Calls subscribers in order. -/
def deliver (pass : Registry → Notification → PassResult) (notification : Notification) :
    List Subscription → Registry → Registry × List TraceEntry
  | [], registry => (registry, [])
  | subscription :: rest, registry =>
    let (registry, trace) :=
      runScript pass subscription.handle (subscription.script notification) registry
    let (registry, later) := deliver pass notification rest registry
    (registry, .called subscription.handle notification :: trace ++ later)

/-- The pass in which nobody is called. -/
def passOver (registry : Registry) (_ : Notification) : PassResult := ⟨registry, [], 0⟩

/-- Tells the subscribers of a change; `pass` is a pass that one of them starts. -/
def notifyWith (pass : Registry → Notification → PassResult) (registry : Registry)
    (notification : Notification) : PassResult :=
  let targets := registry.targets notification.path
  let (after, trace) := deliver pass notification targets registry
  ⟨after, trace, targets.length⟩

/-- Tells the subscribers of a change; passes nest at most `depth` deep in it. -/
def notify : Nat → Registry → Notification → PassResult
  | 0 => notifyWith passOver
  | depth + 1 => notifyWith (notify depth)

end Registry

end PropertyTree
