import PropertyTree.Proofs.Subscription.Lifetimes

/-! # Who is called in a pass

A pass calls the subscribers that live when it starts on the changed path and on the paths above it,
coarse to fine and on each path in the order of their handles. The scripts have no say in this: they
may end subscriptions that are still to be called, add others on the same paths or break off, and
all that comes of it is the registry that their requests leave.
-/

namespace PropertyTree

/-- The action starts a pass. -/
def Action.isNotify : Action → Bool
  | .notify _ _ _ => true
  | .count | .unsubscribe _ | .unsubscribeSelf | .subscribe _ _ | .panic => false

/-- The call that is reported, by the handle of the called subscriber. -/
def TraceEntry.call? : TraceEntry → Option (Nat × Notification)
  | .called handle notification => some (handle, notification)
  | .counted _ _ | .unsubscribed _ _ | .unsubscribedSelf _ _ | .subscribed _ _
  | .notified _ _ _ | .misdirected _ _ => none

namespace Registry

/-- The calls in a trace, in order. -/
def calls (trace : List TraceEntry) : List (Nat × Notification) :=
  trace.filterMap TraceEntry.call?

theorem calls_append (front back : List TraceEntry) :
    calls (front ++ back) = calls front ++ calls back :=
  List.filterMap_append

theorem calls_called_cons (handle : Nat) (notification : Notification)
    (trace : List TraceEntry) :
    calls (.called handle notification :: trace) = (handle, notification) :: calls trace := rfl

/-- What a script asks by itself, until it ends or breaks off. -/
def plainRequests (handle : Nat) (script : List Action) : List Request :=
  (script.takeWhile fun action => !action.isPanic).filterMap (Action.request? handle)

theorem plainRequests_cons (handle : Nat) (action : Action) (rest : List Action) :
    plainRequests handle (action :: rest) =
      if action.isPanic then []
      else (action.request? handle).toList ++ plainRequests handle rest := by
  rw [plainRequests, List.takeWhile_cons]
  cases action.isPanic with
  | true => rfl
  | false => cases hasked : action.request? handle <;> simp [plainRequests, hasked]

section Plain

variable {pass : Registry → Notification → PassResult}
  {issued : Registry → Notification → List Request}

theorem calls_act {action : Action} (hplain : action.isNotify = false) (handle : Nat)
    (registry : Registry) : calls (act pass handle registry action).2 = [] := by
  cases action with
  | panic | count | unsubscribe _ | unsubscribeSelf => rfl
  | subscribe key script =>
      rw [act]
      cases registry.subscribeKey key script <;> rfl
  | notify key old new => cases hplain

theorem calls_runScript {script : List Action}
    (hplain : ∀ action ∈ script, action.isNotify = false) (handle : Nat) (registry : Registry) :
    calls (runScript pass handle script registry).2 = [] := by
  induction script generalizing registry with
  | nil => rfl
  | cons action rest ih =>
      obtain ⟨haction, hrest⟩ := List.forall_mem_cons.mp hplain
      rcases runScript_cons pass handle registry action rest with hlast | hnext
      · rw [hlast]
        exact calls_act haction handle registry
      · rw [hnext, calls_append, calls_act haction, ih hrest]
        rfl

/-- Delivery calls just those whom it is meant for. -/
theorem calls_deliver (notification : Notification) {subscriptions : List Subscription}
    (hplain : ∀ subscription ∈ subscriptions, ∀ action ∈ subscription.script notification,
      action.isNotify = false)
    (registry : Registry) :
    calls (deliver pass notification subscriptions registry).2 =
      subscriptions.map fun subscription => (subscription.handle, notification) := by
  induction subscriptions generalizing registry with
  | nil => rfl
  | cons subscription rest ih =>
      obtain ⟨hscript, hrest⟩ := List.forall_mem_cons.mp hplain
      rw [deliver_cons, calls_called_cons, calls_append, calls_runScript hscript, ih hrest]
      rfl

theorem requests_of_plain {action : Action} (hplain : action.isNotify = false) (handle : Nat)
    (registry : Registry) :
    action.requests issued handle registry = (action.request? handle).toList := by
  cases action with
  | panic | count | unsubscribe _ | unsubscribeSelf | subscribe _ _ => rfl
  | notify key old new => cases hplain

theorem scriptRequests_of_plain {script : List Action}
    (hplain : ∀ action ∈ script, action.isNotify = false) (handle : Nat) (registry : Registry) :
    scriptRequests issued handle script registry = plainRequests handle script := by
  induction script generalizing registry with
  | nil => rfl
  | cons action rest ih =>
      obtain ⟨haction, hrest⟩ := List.forall_mem_cons.mp hplain
      rw [scriptRequests, ih hrest, requests_of_plain haction, plainRequests_cons]

theorem deliveryRequests_of_plain {notification : Notification}
    {subscriptions : List Subscription}
    (hplain : ∀ subscription ∈ subscriptions, ∀ action ∈ subscription.script notification,
      action.isNotify = false)
    (registry : Registry) :
    deliveryRequests issued notification subscriptions registry =
      subscriptions.flatMap fun subscription =>
        plainRequests subscription.handle (subscription.script notification) := by
  induction subscriptions generalizing registry with
  | nil => rfl
  | cons subscription rest ih =>
      obtain ⟨hscript, hrest⟩ := List.forall_mem_cons.mp hplain
      rw [deliveryRequests, ih hrest, scriptRequests_of_plain hscript, List.flatMap_cons]

/-- A pass whose subscribers start no passes calls them all, and leaves what they ask for. -/
theorem Issues.notifyWith_of_plain (h : Issues pass issued) {registry : Registry}
    {notification : Notification}
    (hplain : ∀ subscription ∈ registry.targets notification.path,
      ∀ action ∈ subscription.script notification, action.isNotify = false) :
    calls (Registry.notifyWith pass registry notification).trace =
        (registry.targets notification.path).map
          (fun subscription => (subscription.handle, notification)) ∧
      (Registry.notifyWith pass registry notification).registry =
        (registry.obeyAll ((registry.targets notification.path).flatMap fun subscription =>
          plainRequests subscription.handle (subscription.script notification))).1 := by
  refine ⟨calls_deliver notification hplain registry, ?_⟩
  rw [(h.notifyWith registry notification).registry, passRequestsWith,
    deliveryRequests_of_plain hplain]

end Plain

theorem notify_of_plain {registry : Registry} {notification : Notification}
    (hplain : ∀ subscription ∈ registry.targets notification.path,
      ∀ action ∈ subscription.script notification, action.isNotify = false)
    (depth : Nat) :
    calls (registry.notify depth notification).trace =
        (registry.targets notification.path).map
          (fun subscription => (subscription.handle, notification)) ∧
      (registry.notify depth notification).registry =
        (registry.obeyAll ((registry.targets notification.path).flatMap fun subscription =>
          plainRequests subscription.handle (subscription.script notification))).1 := by
  cases depth with
  | zero => exact issues_passOver.notifyWith_of_plain hplain
  | succ depth => exact (issues_notify depth).notifyWith_of_plain hplain

theorem called_notify (depth : Nat) (registry : Registry) (notification : Notification) :
    (registry.notify depth notification).called = (registry.targets notification.path).length := by
  cases depth <;> rfl

/-- Gives every subscriber another script. -/
def assign (scripts : Nat → Script) (registry : Registry) : Registry :=
  ⟨registry.nextHandle, registry.byPath.mapValues
    (List.map fun subscription => ⟨subscription.handle, scripts subscription.handle⟩)⟩

theorem on_assign (scripts : Nat → Script) (registry : Registry) (path : Path) :
    (registry.assign scripts).on path = (registry.on path).map fun subscription =>
      ⟨subscription.handle, scripts subscription.handle⟩ := by
  rw [on, assign, Dictionary.get?_mapValues, on]
  cases registry.byPath.get? path <;> rfl

theorem targets_assign (scripts : Nat → Script) (registry : Registry) (leaf : Path) :
    (registry.assign scripts).targets leaf = (registry.targets leaf).map fun subscription =>
      ⟨subscription.handle, scripts subscription.handle⟩ := by
  rw [targets, targets, List.map_flatMap]
  exact List.flatMap_congr fun path _ => on_assign scripts registry path

/-- The subscribers that hear of a change stand coarse to fine, and on one path by handle. -/
theorem Accounts.pairwise_targets {registry : Registry} {deeds : List Deed}
    (h : Accounts registry deeds) (leaf : Path) :
    (registry.targets leaf).Pairwise fun first second => ∀ upper lower,
      registry.Lives first.handle upper → registry.Lives second.handle lower →
      upper.length < lower.length ∨ upper = lower ∧ first.handle < second.handle := by
  rw [targets, List.pairwise_flatMap]
  constructor
  · intro path _
    refine (h.ranked path).imp_of_mem ?_
    intro first second hfirst hsecond hlt upper lower hupper hlower
    rw [h.path_unique hupper ⟨first, hfirst, rfl⟩, h.path_unique hlower ⟨second, hsecond, rfl⟩]
    exact Or.inr ⟨rfl, hlt⟩
  · refine leaf.pairwise_length_ancestors_append_self.imp ?_
    intro coarse fine hlt first hfirst second hsecond upper lower hupper hlower
    rw [h.path_unique hupper ⟨first, hfirst, rfl⟩, h.path_unique hlower ⟨second, hsecond, rfl⟩]
    exact Or.inl hlt

theorem mem_handles_targets_iff {registry : Registry} {leaf : Path} {handle : Nat} :
    handle ∈ (registry.targets leaf).map (·.handle) ↔
      ∃ path : Path, (path = leaf ∨ path ∈ leaf.ancestors) ∧ registry.Lives handle path := by
  have hleads : ∀ path : Path, path.LeadsTo leaf ↔ path = leaf ∨ path ∈ leaf.ancestors := by
    intro path
    rw [← Path.mem_ancestors_append_self_iff, List.mem_append, List.mem_singleton, or_comm]
  simp only [List.mem_map, mem_targets_iff, hleads, Lives]
  constructor
  · rintro ⟨subscription, ⟨path, hpath, hmem⟩, hhandle⟩
    exact ⟨path, hpath, subscription, hmem, hhandle⟩
  · rintro ⟨path, hpath, subscription, hmem, hhandle⟩
    exact ⟨subscription, ⟨path, hpath, hmem⟩, hhandle⟩

/-- Nobody is called twice. -/
theorem Accounts.nodup_handles_targets {registry : Registry} {deeds : List Deed}
    (h : Accounts registry deeds) (leaf : Path) :
    ((registry.targets leaf).map (·.handle)).Nodup := by
  refine List.pairwise_map.mpr ((h.pairwise_targets leaf).imp_of_mem ?_)
  intro first second hfirst _ hrank heq
  obtain ⟨path, _, hmem⟩ := mem_targets_iff.mp hfirst
  have hlives : registry.Lives first.handle path := ⟨first, hmem, rfl⟩
  rcases hrank path path hlives (heq ▸ hlives) with hlt | ⟨_, hlt⟩
  · exact Nat.lt_irrefl _ hlt
  · exact Nat.ne_of_lt hlt heq

/-- Who is called in a pass is settled before the first call, and so is the order: the subscribers
on the changed path and above it, coarse to fine, and by handle where they share a path. This is so
whatever their scripts do, as long as these start no passes of their own; and what they do comes to
their requests, one script after the other. -/
theorem calls_notify (requests : List Request) (notification : Notification) :
    let registry := (Registry.empty.obeyAll requests).1
    let handles := (registry.targets notification.path).map (·.handle)
    (∀ handle, handle ∈ handles ↔ ∃ path : Path,
        (path = notification.path ∨ path ∈ notification.path.ancestors) ∧
          registry.Lives handle path) ∧
      handles.Nodup ∧
      handles.Pairwise (fun first second => ∀ upper lower, registry.Lives first upper →
        registry.Lives second lower →
        upper.length < lower.length ∨ upper = lower ∧ first < second) ∧
      ∀ (scripts : Nat → Script) (depth : Nat),
        (∀ handle ∈ handles, ∀ action ∈ scripts handle notification, action.isNotify = false) →
        let pass := (registry.assign scripts).notify depth notification
        calls pass.trace = handles.map (fun handle => (handle, notification)) ∧
          pass.called = handles.length ∧
          pass.registry = ((registry.assign scripts).obeyAll (handles.flatMap fun handle =>
            plainRequests handle (scripts handle notification))).1 := by
  intro registry handles
  have haccounts := Accounts.of_empty requests
  refine ⟨fun _ => mem_handles_targets_iff, haccounts.nodup_handles_targets notification.path,
    List.pairwise_map.mpr (haccounts.pairwise_targets notification.path), ?_⟩
  intro scripts depth hscripts pass
  have hplain : ∀ subscription ∈ (registry.assign scripts).targets notification.path,
      ∀ action ∈ subscription.script notification, action.isNotify = false := by
    rw [targets_assign, List.forall_mem_map]
    intro subscription hsubscription
    exact hscripts subscription.handle (List.mem_map_of_mem hsubscription)
  obtain ⟨hcalls, hregistry⟩ := notify_of_plain hplain depth
  refine ⟨?_, ?_, ?_⟩
  · rw [hcalls, targets_assign, List.map_map, List.map_map]
    rfl
  · rw [called_notify, targets_assign, List.length_map, List.length_map]
  · rw [hregistry, targets_assign, List.flatMap_map, List.flatMap_map]

/-- Two subscribers on the lamp's switch, and one that was subscribed between them on the lamp. -/
def lampRequests : List Request :=
  [.subscribe .lampOn fun _ => [], .subscribe .lampBranch fun _ => [],
    .subscribe .lampOn fun _ => []]

/-- The subscriber on the lamp ends the first on the switch and adds another there, which is not
called yet. The first, called all the same, breaks off before it can end the last, which ends itself
when it hears of a new value. -/
def unrulyScripts : Nat → Script
  | 0 => fun _ => [.panic, .unsubscribe 2]
  | 1 => fun _ => [.unsubscribe 0, .subscribe "lamp.on" fun _ => []]
  | _ => fun notification => if notification.new.isSome then [.unsubscribeSelf] else []

theorem calls_notify_unruly :
    let registry := (Registry.empty.obeyAll lampRequests).1
    let switched : Notification := ⟨.lampOn, none, some (.bool true)⟩
    let pass := (registry.assign unrulyScripts).notify 0 switched
    (∀ handle ∈ [1, 0, 2], ∀ action ∈ unrulyScripts handle switched, action.isNotify = false) ∧
      calls pass.trace = [(1, switched), (0, switched), (2, switched)] ∧ pass.called = 3 ∧
      pass.registry = ((registry.assign unrulyScripts).obeyAll
        [.unsubscribe 0, .subscribe .lampOn fun _ => [], .unsubscribe 2]).1 := by
  intro registry switched pass
  have hplain : ∀ handle ∈ [1, 0, 2], ∀ action ∈ unrulyScripts handle switched,
      action.isNotify = false := by
    simp [unrulyScripts, switched, Action.isNotify]
  obtain ⟨_, _, _, hpass⟩ := calls_notify lampRequests switched
  exact ⟨hplain, hpass unrulyScripts 0 hplain⟩

end Registry

end PropertyTree
