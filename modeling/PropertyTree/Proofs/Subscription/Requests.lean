import PropertyTree.Proofs.Subscription.Evolution

/-! # The requests behind a pass

All that ever happens to a registry is that it is asked to add a subscription or to end one. A pass
asks nothing itself; the scripts that it runs do, one after the other, and a pass that a script
starts takes its turn between the requests of that script. Laid out in this order, the requests of a
pass make of the registry what the pass makes of it, and get the answers that the subscribers get.
-/

namespace PropertyTree

namespace Registry

/-- What a registry may be asked. -/
inductive Request where
  | subscribe (path : Path) (script : Script)
  | unsubscribe (handle : Nat)

/-- What has become of a request. -/
inductive Deed where
  | made (handle : Nat)
  | ended (handle : Nat)
  /-- There was no subscription to end. -/
  | missed (handle : Nat)
deriving DecidableEq

/-- What is answered to a request. -/
inductive Reply where
  | made (handle : Nat)
  | found (found : Bool)
deriving DecidableEq

/-- The answer that a deed is told by. -/
def Deed.reply : Deed → Reply
  | .made handle => .made handle
  | .ended _ => .found true
  | .missed _ => .found false

/-- Does what is asked. -/
def obey (registry : Registry) : Request → Registry × Deed
  | .subscribe path script =>
    ((registry.subscribe path script).1, .made (registry.subscribe path script).2)
  | .unsubscribe handle =>
    ((registry.unsubscribe handle).1,
      if (registry.unsubscribe handle).2 then .ended handle else .missed handle)

theorem reply_obey_unsubscribe (registry : Registry) (handle : Nat) :
    (registry.obey (.unsubscribe handle)).2.reply =
      .found (registry.unsubscribe handle).2 := by
  rw [obey]
  cases (registry.unsubscribe handle).2 <;> rfl

/-- Does all that is asked, in order. -/
def obeyAll (registry : Registry) : List Request → Registry × List Deed
  | [] => (registry, [])
  | request :: rest =>
    let later := (registry.obey request).1.obeyAll rest
    (later.1, (registry.obey request).2 :: later.2)

theorem obeyAll_append (registry : Registry) (front back : List Request) :
    registry.obeyAll (front ++ back) =
      (((registry.obeyAll front).1.obeyAll back).1,
        (registry.obeyAll front).2 ++ ((registry.obeyAll front).1.obeyAll back).2) := by
  induction front generalizing registry with
  | nil => rfl
  | cons request rest ih =>
      rw [List.cons_append, obeyAll, obeyAll, ih]
      rfl

theorem take_obeyAll (registry : Registry) (requests : List Request) (n : Nat) :
    (registry.obeyAll requests).2.take n = (registry.obeyAll (requests.take n)).2 := by
  induction requests generalizing registry n with
  | nil => simp [obeyAll]
  | cons request rest ih =>
      cases n with
      | zero => rfl
      | succ n => exact congrArg (_ :: ·) (ih _ n)

end Registry

open Registry

/-- What the action of the subscriber with this handle asks of the registry itself. -/
def Action.request? (handle : Nat) : Action → Option Request
  | .unsubscribe target => some (.unsubscribe target)
  | .unsubscribeSelf => some (.unsubscribe handle)
  | .subscribe key script =>
    match Path.parse key with
    | .ok path => some (.subscribe path script)
    | .error _ => none
  | .count | .notify _ _ _ | .panic => none

/-- What the action asks, and what is asked in a pass that it starts. -/
def Action.requests (issued : Registry → Notification → List Request) (handle : Nat)
    (registry : Registry) : Action → List Request
  | .notify key old new =>
    match Path.parse key with
    | .ok path => issued registry ⟨path, old, new⟩
    | .error _ => []
  | action => (action.request? handle).toList

/-- The answer to a request that a subscriber was given. -/
def TraceEntry.reply? : TraceEntry → Option Reply
  | .unsubscribed _ found | .unsubscribedSelf _ found => some (.found found)
  | .subscribed _ (.ok made) => some (.made made)
  | .subscribed _ (.error _) | .called _ _ | .counted _ _ | .notified _ _ _
  | .misdirected _ _ => none

namespace Registry

/-- What a script asks, in order; `issued` is what is asked in a pass that it starts. -/
def scriptRequests (issued : Registry → Notification → List Request) (handle : Nat) :
    List Action → Registry → List Request
  | [], _ => []
  | action :: rest, registry =>
    if action.isPanic then []
    else
      action.requests issued handle registry ++
        scriptRequests issued handle rest
          (registry.obeyAll (action.requests issued handle registry)).1

/-- What is asked by the scripts of subscribers that are called in order. -/
def deliveryRequests (issued : Registry → Notification → List Request)
    (notification : Notification) : List Subscription → Registry → List Request
  | [], _ => []
  | subscription :: rest, registry =>
    let first :=
      scriptRequests issued subscription.handle (subscription.script notification) registry
    first ++ deliveryRequests issued notification rest (registry.obeyAll first).1

/-- What is asked in a pass; `issued` is what is asked in a pass that a script starts. -/
def passRequestsWith (issued : Registry → Notification → List Request) (registry : Registry)
    (notification : Notification) : List Request :=
  deliveryRequests issued notification (registry.targets notification.path) registry

/-- What is asked in a pass; passes nest at most `depth` deep in it. -/
def passRequests : Nat → Registry → Notification → List Request
  | 0 => passRequestsWith fun _ _ => []
  | depth + 1 => passRequestsWith (passRequests depth)

/-- The requests lead to the registry, and their answers are those that the subscribers got. -/
structure Obeys (before : Registry) (requests : List Request) (trace : List TraceEntry)
    (after : Registry) : Prop where
  registry : after = (before.obeyAll requests).1
  replies : trace.filterMap TraceEntry.reply? = (before.obeyAll requests).2.map Deed.reply

namespace Obeys

variable {before middle after : Registry}

theorem nil (registry : Registry) : Obeys registry [] [] registry := ⟨rfl, rfl⟩

theorem single (registry : Registry) (request : Request) {entry : TraceEntry}
    (h : entry.reply? = some (registry.obey request).2.reply) :
    Obeys registry [request] [entry] (registry.obey request).1 :=
  ⟨rfl, List.filterMap_cons_some h⟩

theorem append {front back : List Request} {earlier later : List TraceEntry}
    (hfront : Obeys before front earlier middle) (hback : Obeys middle back later after) :
    Obeys before (front ++ back) (earlier ++ later) after := by
  constructor
  · rw [obeyAll_append, ← hfront.registry]
    exact hback.registry
  · rw [obeyAll_append, List.filterMap_append, List.map_append, hfront.replies, hback.replies,
      ← hfront.registry]

/-- What is no answer to a request may be reported at any time. -/
theorem unanswered {requests : List Request} {trace : List TraceEntry} {entry : TraceEntry}
    (h : Obeys before requests trace after) (hentry : entry.reply? = none) :
    Obeys before requests (trace ++ [entry]) after := by
  refine ⟨h.registry, ?_⟩
  rw [List.filterMap_append, List.filterMap_cons_none hentry, List.filterMap_nil, List.append_nil]
  exact h.replies

end Obeys

section Script

variable {pass : Registry → Notification → PassResult}
  {issued : Registry → Notification → List Request}

/-- What the pass does is what is asked in it. -/
def Issues (pass : Registry → Notification → PassResult)
    (issued : Registry → Notification → List Request) : Prop :=
  ∀ registry notification, Obeys registry (issued registry notification)
    (pass registry notification).trace (pass registry notification).registry

theorem Issues.act (h : Issues pass issued) (handle : Nat) (registry : Registry)
    (action : Action) :
    Obeys registry (action.requests issued handle registry) (act pass handle registry action).2
      (act pass handle registry action).1 := by
  cases action with
  | panic => exact Obeys.nil registry
  | count => exact (Obeys.nil registry).unanswered rfl
  | unsubscribe target =>
      apply Obeys.single registry (.unsubscribe target)
      rw [reply_obey_unsubscribe]
      rfl
  | unsubscribeSelf =>
      apply Obeys.single registry (.unsubscribe handle)
      rw [reply_obey_unsubscribe]
      rfl
  | subscribe key script =>
      rw [Registry.act, Action.requests, Action.request?, subscribeKey]
      · cases Path.parse key with
        | ok path =>
            exact Obeys.single registry (.subscribe path script) rfl
        | error error => exact (Obeys.nil registry).unanswered rfl
      · intro _ _ _ heq
        cases heq
  | notify key old new =>
      rw [Registry.act, Action.requests]
      cases Path.parse key with
      | ok path => exact (h registry ⟨path, old, new⟩).unanswered rfl
      | error error => exact (Obeys.nil registry).unanswered rfl

theorem Issues.runScript (h : Issues pass issued) (handle : Nat) (script : List Action)
    (registry : Registry) :
    Obeys registry (scriptRequests issued handle script registry)
      (runScript pass handle script registry).2 (runScript pass handle script registry).1 := by
  induction script generalizing registry with
  | nil => exact .nil registry
  | cons action rest ih =>
      rw [scriptRequests]
      split
      next hpanic =>
        rw [runScript_cons_of_isPanic pass handle registry hpanic]
        exact .nil registry
      next hgoes =>
        have hact := h.act handle registry action
        have hrest := ih (Registry.act pass handle registry action).1
        rw [runScript_cons_of_goesOn pass handle registry (Bool.eq_false_iff.mpr hgoes),
          ← hact.registry]
        exact hact.append hrest

theorem Issues.deliver (h : Issues pass issued) (notification : Notification)
    (subscriptions : List Subscription) (registry : Registry) :
    Obeys registry (deliveryRequests issued notification subscriptions registry)
      (deliver pass notification subscriptions registry).2
      (deliver pass notification subscriptions registry).1 := by
  induction subscriptions generalizing registry with
  | nil => exact .nil registry
  | cons subscription rest ih =>
      have hcalled : Obeys registry [] [.called subscription.handle notification] registry :=
        (Obeys.nil registry).unanswered rfl
      have hscript :=
        h.runScript subscription.handle (subscription.script notification) registry
      rw [deliver_cons, deliveryRequests, ← hscript.registry]
      exact hcalled.append (hscript.append (ih _))

theorem Issues.notifyWith (h : Issues pass issued) :
    Issues (notifyWith pass) (passRequestsWith issued) := by
  intro registry notification
  exact h.deliver notification (registry.targets notification.path) registry

end Script

theorem issues_passOver : Issues passOver fun _ _ => [] := fun registry _ => .nil registry

/-- What a pass does, however deep others nest in it, is what is asked in it. -/
theorem issues_notify (depth : Nat) : Issues (notify depth) (passRequests depth) := by
  induction depth with
  | zero => exact issues_passOver.notifyWith
  | succ depth ih => exact ih.notifyWith

end Registry

end PropertyTree
