import PropertyTree.Proofs.Except
import PropertyTree.Proofs.Subscription.Handles
import PropertyTree.Subscription.Pass

/-! # What passes do to a registry

A pass runs the scripts of subscribers, and these may subscribe, unsubscribe and start further
passes. Whatever they do comes to a course of subscribing and unsubscribing, and the scripts
that are subscribed on the way are parts of those that stood in the registry at first.
-/

namespace PropertyTree

/-- The action breaks off its script. -/
def Action.isPanic : Action → Bool
  | .panic => true
  | .count | .unsubscribe _ | .unsubscribeSelf | .subscribe _ _ | .notify _ _ _ => false

namespace Registry

/-- The registry comes from `origin` by subscribing scripts whose actions are always admitted, and
by unsubscribing. -/
inductive Evolves (admits : List Action → Prop) (origin : Registry) : Registry → Prop
  | refl : Evolves admits origin origin
  | subscribe {registry : Registry} {script : Script} (path : Path) :
      Evolves admits origin registry → (∀ notification, admits (script notification)) →
      Evolves admits origin (registry.subscribe path script).1
  | unsubscribe {registry : Registry} (handle : Nat) :
      Evolves admits origin registry → Evolves admits origin (registry.unsubscribe handle).1

/-- Whatever they hear, the subscribers only do what is admitted. -/
def OnlyRuns (admits : List Action → Prop) (registry : Registry) : Prop :=
  ∀ path, ∀ subscription ∈ registry.on path, ∀ notification,
    admits (subscription.script notification)

variable {admits : List Action → Prop} {first second third : Registry}

theorem onlyRuns_empty : Registry.empty.OnlyRuns admits := by
  intro path subscription hmem
  cases hmem

theorem onlyRuns_true (registry : Registry) : registry.OnlyRuns fun _ => True :=
  fun _ _ _ _ => trivial

namespace Evolves

theorem trans (hfirst : Evolves admits first second) (hsecond : Evolves admits second third) :
    Evolves admits first third := by
  induction hsecond with
  | refl => exact hfirst
  | subscribe path _ hadmits ih => exact .subscribe path ih hadmits
  | unsubscribe handle _ ih => exact .unsubscribe handle ih

theorem sound (h : Evolves admits first second) (hsound : first.Sound) : second.Sound := by
  induction h with
  | refl => exact hsound
  | subscribe path _ _ ih => exact ih.subscribe path _
  | unsubscribe handle _ ih => exact ih.unsubscribe handle

theorem onlyRuns (h : Evolves admits first second) (hruns : first.OnlyRuns admits) :
    second.OnlyRuns admits := by
  induction h with
  | refl => exact hruns
  | subscribe path _ hadmits ih =>
      intro other subscription hmem
      rcases mem_on_subscribe.mp hmem with hold | ⟨_, rfl⟩
      · exact ih other subscription hold
      · exact hadmits
  | unsubscribe handle _ ih =>
      intro other subscription hmem
      exact ih other subscription ((on_unsubscribe_sublist _ handle other).mem hmem)

theorem nextHandle_le (h : Evolves admits first second) : first.nextHandle ≤ second.nextHandle := by
  induction h with
  | refl => exact Nat.le_refl _
  | subscribe path _ _ ih => exact Nat.le_succ_of_le ih
  | unsubscribe handle _ ih =>
      rw [nextHandle_unsubscribe]
      exact ih

/-- No handle that has been issued is given to another subscription. -/
theorem occurrences_le (h : Evolves admits first second) {handle : Nat}
    (hissued : handle < first.nextHandle) (path : Path) :
    second.occurrences handle path ≤ first.occurrences handle path := by
  induction h with
  | refl => exact Nat.le_refl _
  | subscribe other hbefore _ ih =>
      rw [occurrences_subscribe_of_ne]
      · exact ih
      · exact Nat.ne_of_lt (Nat.lt_of_lt_of_le hissued hbefore.nextHandle_le)
  | unsubscribe target _ ih =>
      exact Nat.le_trans (occurrences_unsubscribe_le _ target handle path) ih

end Evolves

/-- What a single action does. -/
def act (pass : Registry → Notification → PassResult) (handle : Nat) (registry : Registry) :
    Action → Registry × List TraceEntry
  | .panic => (registry, [])
  | .count => (registry, [.counted handle registry.count])
  | .unsubscribe target =>
    let (registry, found) := registry.unsubscribe target
    (registry, [.unsubscribed handle found])
  | .unsubscribeSelf =>
    let (registry, found) := registry.unsubscribe handle
    (registry, [.unsubscribedSelf handle found])
  | .subscribe key script =>
    match registry.subscribeKey key script with
    | .ok (registry, made) => (registry, [.subscribed handle (.ok made)])
    | .error error => (registry, [.subscribed handle (.error error)])
  | .notify key old new =>
    match Path.parse key with
    | .ok path =>
      let notification : Notification := ⟨path, old, new⟩
      let result := pass registry notification
      (result.registry, result.trace ++ [.notified handle notification result.called])
    | .error error => (registry, [.misdirected handle error])

section Script

variable {pass : Registry → Notification → PassResult} {registry : Registry}

theorem runScript_cons_of_goesOn (pass : Registry → Notification → PassResult) (handle : Nat)
    (registry : Registry) {action : Action} (hgoes : action.isPanic = false) (rest : List Action) :
    runScript pass handle (action :: rest) registry =
      ((runScript pass handle rest (act pass handle registry action).1).1,
        (act pass handle registry action).2 ++
          (runScript pass handle rest (act pass handle registry action).1).2) := by
  cases action with
  | panic => cases hgoes
  | count | unsubscribe _ | unsubscribeSelf => rfl
  | subscribe key script =>
      rw [runScript, act]
      cases registry.subscribeKey key script <;> rfl
  | notify key old new =>
      rw [runScript, act]
      cases Path.parse key <;> rfl

theorem runScript_cons_of_isPanic (pass : Registry → Notification → PassResult) (handle : Nat)
    (registry : Registry) {action : Action} (hpanic : action.isPanic = true)
    (rest : List Action) : runScript pass handle (action :: rest) registry = (registry, []) := by
  cases action with
  | panic => rfl
  | count | unsubscribe _ | unsubscribeSelf | subscribe _ _ | notify _ _ _ => cases hpanic

theorem runScript_cons (pass : Registry → Notification → PassResult) (handle : Nat)
    (registry : Registry) (action : Action) (rest : List Action) :
    runScript pass handle (action :: rest) registry = act pass handle registry action ∨
      runScript pass handle (action :: rest) registry =
        ((runScript pass handle rest (act pass handle registry action).1).1,
          (act pass handle registry action).2 ++
            (runScript pass handle rest (act pass handle registry action).1).2) := by
  cases hpanic : action.isPanic with
  | true =>
      left
      cases action with
      | panic => rfl
      | count | unsubscribe _ | unsubscribeSelf | subscribe _ _ | notify _ _ _ => cases hpanic
  | false => exact Or.inr (runScript_cons_of_goesOn pass handle registry hpanic rest)

/-- What is admitted of actions is admitted of those that are left and of the scripts that are
subscribed in them. -/
structure Hereditary (admits : List Action → Prop) : Prop where
  rest : ∀ {action rest}, admits (action :: rest) → admits rest
  subscribed : ∀ {key script rest}, admits (.subscribe key script :: rest) →
    ∀ notification, admits (script notification)

theorem hereditary_true : Hereditary fun _ => True := ⟨fun _ => trivial, fun _ _ => trivial⟩

/-- Where the subscribers only do what is admitted, the registry evolves by the pass. -/
def Evolving (admits : List Action → Prop) (pass : Registry → Notification → PassResult) : Prop :=
  ∀ registry notification, registry.OnlyRuns admits →
    Evolves admits registry (pass registry notification).registry

theorem Hereditary.evolves_act (hadmits : Hereditary admits) (hpass : Evolving admits pass)
    (hruns : registry.OnlyRuns admits) (handle : Nat) (action : Action) (rest : List Action)
    (hscript : admits (action :: rest)) :
    Evolves admits registry (act pass handle registry action).1 := by
  cases action with
  | panic | count => exact .refl
  | unsubscribe target => exact .unsubscribe target .refl
  | unsubscribeSelf => exact .unsubscribe handle .refl
  | subscribe key script =>
      rw [act]
      split
      next after made hmade =>
        obtain ⟨path, _, heq⟩ := bind_eq_ok_iff.mp hmade
        cases heq
        exact .subscribe path .refl (hadmits.subscribed hscript)
      next => exact .refl
  | notify key old new =>
      rw [act]
      split
      next path _ => exact hpass registry _ hruns
      next => exact .refl

theorem Hereditary.evolves_runScript (hadmits : Hereditary admits) (hpass : Evolving admits pass)
    (hruns : registry.OnlyRuns admits) (handle : Nat) (script : List Action)
    (hscript : admits script) :
    Evolves admits registry (runScript pass handle script registry).1 := by
  induction script generalizing registry with
  | nil => exact .refl
  | cons action rest ih =>
      have hact := hadmits.evolves_act hpass hruns handle action rest hscript
      rcases runScript_cons pass handle registry action rest with hlast | hnext
      · rw [hlast]
        exact hact
      · rw [hnext]
        exact hact.trans (ih (hact.onlyRuns hruns) (hadmits.rest hscript))

theorem deliver_cons (notification : Notification) (subscription : Subscription)
    (rest : List Subscription) (registry : Registry) :
    deliver pass notification (subscription :: rest) registry =
      let called := runScript pass subscription.handle (subscription.script notification) registry
      let later := deliver pass notification rest called.1
      (later.1, .called subscription.handle notification :: (called.2 ++ later.2)) := rfl

theorem Hereditary.evolves_deliver (hadmits : Hereditary admits) (hpass : Evolving admits pass)
    (hruns : registry.OnlyRuns admits) (notification : Notification)
    {subscriptions : List Subscription}
    (hscripts : ∀ subscription ∈ subscriptions, admits (subscription.script notification)) :
    Evolves admits registry (deliver pass notification subscriptions registry).1 := by
  induction subscriptions generalizing registry with
  | nil => exact .refl
  | cons subscription rest ih =>
      obtain ⟨hscript, hrest⟩ := List.forall_mem_cons.mp hscripts
      have hcalled := hadmits.evolves_runScript hpass hruns subscription.handle _ hscript
      exact hcalled.trans (ih (hcalled.onlyRuns hruns) hrest)

end Script

theorem OnlyRuns.of_mem_targets {registry : Registry} (hruns : registry.OnlyRuns admits)
    (leaf : Path) : ∀ subscription ∈ registry.targets leaf, ∀ notification,
      admits (subscription.script notification) := by
  intro subscription hmem
  obtain ⟨path, _, hon⟩ := mem_targets_iff.mp hmem
  exact hruns path subscription hon

/-- What holds of the pass in which nobody is called, and of a pass as soon as it does of those that
are started in it, holds of passes however deep they nest. -/
theorem notify_induction {holds : (Registry → Notification → PassResult) → Prop}
    (hover : holds passOver) (hwith : ∀ pass, holds pass → holds (notifyWith pass)) (depth : Nat) :
    holds (notify depth) := by
  induction depth with
  | zero => exact hwith passOver hover
  | succ depth ih => exact hwith (notify depth) ih

theorem exists_notify_eq {holds : (Registry → Notification → PassResult) → Prop}
    (hover : holds passOver) (hwith : ∀ pass, holds pass → holds (notifyWith pass)) (depth : Nat) :
    ∃ pass, holds pass ∧ notify depth = notifyWith pass := by
  cases depth with
  | zero => exact ⟨passOver, hover, rfl⟩
  | succ depth => exact ⟨notify depth, notify_induction hover hwith depth, rfl⟩

theorem evolving_passOver : Evolving admits passOver := fun _ _ _ => .refl

theorem Hereditary.evolving_notifyWith (hadmits : Hereditary admits)
    {pass : Registry → Notification → PassResult} (hpass : Evolving admits pass) :
    Evolving admits (notifyWith pass) := by
  intro registry notification hruns
  apply hadmits.evolves_deliver hpass hruns
  intro subscription hmem
  exact hruns.of_mem_targets notification.path subscription hmem notification

/-- A pass, however deep others nest in it, is a course of subscribing and unsubscribing. -/
theorem Hereditary.evolving_notify (hadmits : Hereditary admits) (depth : Nat) :
    Evolving admits (notify depth) :=
  notify_induction evolving_passOver (fun _ => hadmits.evolving_notifyWith) depth

section Tell

variable (depth : Nat)

/-- Tells the subscribers of changes, in order. -/
def tell (registry : Registry) : List Notification → Registry × List TraceEntry
  | [] => (registry, [])
  | notification :: rest =>
    let pass := registry.notify depth notification
    ((tell pass.registry rest).1, pass.trace ++ (tell pass.registry rest).2)

theorem tell_append (registry : Registry) (front back : List Notification) :
    registry.tell depth (front ++ back) =
      (((registry.tell depth front).1.tell depth back).1,
        (registry.tell depth front).2 ++ ((registry.tell depth front).1.tell depth back).2) := by
  induction front generalizing registry with
  | nil => rfl
  | cons notification rest ih =>
      rw [List.cons_append, tell, tell, ih]
      simp only [List.append_assoc]

theorem Hereditary.evolves_tell (hadmits : Hereditary admits) {registry : Registry}
    (hruns : registry.OnlyRuns admits) (notifications : List Notification) :
    Evolves admits registry (registry.tell depth notifications).1 := by
  induction notifications generalizing registry with
  | nil => exact .refl
  | cons notification rest ih =>
      have hpass := hadmits.evolving_notify depth registry notification hruns
      exact hpass.trans (ih (hpass.onlyRuns hruns))

end Tell

end Registry

end PropertyTree
