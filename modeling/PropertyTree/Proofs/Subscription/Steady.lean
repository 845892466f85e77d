import PropertyTree.Proofs.Subscription.Evolution

/-! # Passes that leave the subscriptions as they are

As long as passes leave the subscriptions alone, what a pass does depends on its own change and not
on the changes told before it, so the order in which changes are told does not matter. Scripts that
neither subscribe nor unsubscribe give such passes.
-/

namespace PropertyTree

/-- The action neither subscribes nor unsubscribes. -/
def Action.isQuiet : Action → Bool
  | .count | .notify _ _ _ | .panic => true
  | .subscribe _ _ | .unsubscribe _ | .unsubscribeSelf => false

namespace Registry

/-- A pass about this change leaves the subscriptions as they are. -/
def Steady (depth : Nat) (registry : Registry) (notification : Notification) : Prop :=
  (registry.notify depth notification).registry = registry

/-- Passes of this kind leave the subscriptions as they are. -/
def LeftAloneBy (registry : Registry) (pass : Registry → Notification → PassResult) : Prop :=
  ∀ notification, (pass registry notification).registry = registry

section Quiet

variable {pass : Registry → Notification → PassResult} {registry : Registry}

theorem act_of_isQuiet (hpass : registry.LeftAloneBy pass)
    (handle : Nat) {action : Action} (hquiet : action.isQuiet = true) :
    (act pass handle registry action).1 = registry := by
  cases action with
  | count | panic => rfl
  | notify key old new =>
      rw [act]
      split
      next path _ => exact hpass ⟨path, old, new⟩
      next => rfl
  | subscribe _ _ | unsubscribe _ | unsubscribeSelf => cases hquiet

theorem runScript_of_isQuiet (hpass : registry.LeftAloneBy pass) (handle : Nat)
    {script : List Action} (hquiet : ∀ action ∈ script, action.isQuiet = true) :
    (runScript pass handle script registry).1 = registry := by
  induction script with
  | nil => rfl
  | cons action rest ih =>
      obtain ⟨haction, hrest⟩ := List.forall_mem_cons.mp hquiet
      have hact := act_of_isQuiet hpass handle haction
      rcases runScript_cons pass handle registry action rest with hlast | hnext
      · rw [hlast, hact]
      · rw [hnext, hact]
        exact ih hrest

theorem deliver_of_isQuiet (hpass : registry.LeftAloneBy pass)
    (notification : Notification) {subscriptions : List Subscription}
    (hquiet : ∀ subscription ∈ subscriptions, ∀ action ∈ subscription.script notification,
      action.isQuiet = true) :
    (deliver pass notification subscriptions registry).1 = registry := by
  induction subscriptions with
  | nil => rfl
  | cons subscription rest ih =>
      obtain ⟨hscript, hrest⟩ := List.forall_mem_cons.mp hquiet
      rw [deliver_cons]
      simp only [runScript_of_isQuiet hpass subscription.handle hscript]
      exact ih hrest

end Quiet

variable {depth : Nat} {registry : Registry}

/-- Where no script subscribes or unsubscribes, all passes leave the subscriptions as they are. -/
theorem steady_of_isQuiet
    (hquiet : registry.OnlyRuns fun script => ∀ action ∈ script, action.isQuiet = true)
    (notification : Notification) : Steady depth registry notification := by
  have hover : registry.LeftAloneBy passOver := fun _ => rfl
  -- The passes that scripts start in one leave the subscriptions alone as well.
  have hwith : ∀ pass, registry.LeftAloneBy pass → registry.LeftAloneBy (notifyWith pass) := by
    intro pass hpass notification
    exact deliver_of_isQuiet hpass notification fun subscription hmem =>
      hquiet.of_mem_targets notification.path subscription hmem notification
  have hnotify : registry.LeftAloneBy (notify depth) := notify_induction hover hwith depth
  exact hnotify notification

theorem tell_of_steady {notifications : List Notification}
    (hsteady : ∀ notification ∈ notifications, Steady depth registry notification) :
    registry.tell depth notifications = (registry, notifications.flatMap fun notification =>
      (registry.notify depth notification).trace) := by
  induction notifications with
  | nil => rfl
  | cons notification rest ih =>
      obtain ⟨hfirst, hrest⟩ := List.forall_mem_cons.mp hsteady
      have hpass : (registry.notify depth notification).registry = registry := hfirst
      rw [tell, hpass, ih hrest, List.flatMap_cons]

/-- The order in which changes are told only reorders what the subscribers do. -/
theorem tell_perm {front back : List Notification} (hperm : front.Perm back)
    (hsteady : ∀ notification ∈ front, Steady depth registry notification) :
    (registry.tell depth front).2.Perm (registry.tell depth back).2 := by
  have hback : ∀ notification ∈ back, Steady depth registry notification := fun notification hmem =>
    hsteady notification (hperm.mem_iff.mpr hmem)
  rw [tell_of_steady hsteady, tell_of_steady hback]
  exact hperm.flatMap_right _

end Registry

end PropertyTree
