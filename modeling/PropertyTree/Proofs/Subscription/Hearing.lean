import PropertyTree.Proofs.Subscription.Evolution

/-! # What a subscriber hears

A subscriber hears of a change once if its path leads to the changed leaf, and else not at all. In
between it hears nothing, as long as no subscriber starts a pass of its own about the path or what
lies below it: such a pass tells of a change that the store need not have seen. Where no script can
start such a pass, none is started.
-/

namespace PropertyTree

/-- What the pass is about that a subscriber has started. -/
def TraceEntry.started? : TraceEntry → Option Notification
  | .notified _ notification _ => some notification
  | .called _ _ | .counted _ _ | .unsubscribed _ _ | .unsubscribedSelf _ _ | .subscribed _ _
  | .misdirected _ _ => none

/-- The notification that the subscriber with this handle is called with. -/
def TraceEntry.heard? (handle : Nat) : TraceEntry → Option Notification
  | .called target notification => if target = handle then some notification else none
  | .counted _ _ | .unsubscribed _ _ | .unsubscribedSelf _ _ | .subscribed _ _
  | .notified _ _ _ | .misdirected _ _ => none

namespace Registry

/-- What the subscriber with this handle hears, in order. -/
def heard (handle : Nat) (trace : List TraceEntry) : List Notification :=
  trace.filterMap (TraceEntry.heard? handle)

theorem heard_append (handle : Nat) (front back : List TraceEntry) :
    heard handle (front ++ back) = heard handle front ++ heard handle back :=
  List.filterMap_append

theorem heard_called_cons (handle target : Nat) (notification : Notification)
    (trace : List TraceEntry) :
    heard handle (.called target notification :: trace) =
      if target = handle then notification :: heard handle trace else heard handle trace := by
  split
  next htarget => exact List.filterMap_cons_some (if_pos htarget)
  next htarget => exact List.filterMap_cons_none (if_neg htarget)

/-- No subscriber has started a pass about the path or what lies below it. -/
def Spares (path : Path) (trace : List TraceEntry) : Prop :=
  ∀ notification ∈ trace.filterMap TraceEntry.started?, ¬ path.LeadsTo notification.path

variable {path : Path}

theorem spares_nil : Spares path [] := List.forall_mem_nil _

theorem spares_append {front back : List TraceEntry} :
    Spares path (front ++ back) ↔ Spares path front ∧ Spares path back := by
  rw [Spares, List.filterMap_append, List.forall_mem_append]
  rfl

theorem spares_cons {entry : TraceEntry} {trace : List TraceEntry} :
    Spares path (entry :: trace) ↔ Spares path [entry] ∧ Spares path trace := by
  rw [← List.singleton_append]
  exact spares_append

theorem spares_of_started?_eq_none {entry : TraceEntry} (h : entry.started? = none) :
    Spares path [entry] := by
  rw [Spares, List.filterMap_cons_none h]
  exact spares_nil

theorem spares_notified {handle called : Nat} {notification : Notification} :
    Spares path [.notified handle notification called] ↔ ¬ path.LeadsTo notification.path :=
  List.forall_mem_singleton

/-- The handle is at this path or nowhere. -/
structure Guards (path : Path) (handle : Nat) (registry : Registry) : Prop where
  issued : handle < registry.nextHandle
  elsewhere : ∀ other, other ≠ path → registry.occurrences handle other = 0

variable {handle : Nat} {registry after : Registry}

theorem Sound.guards (hsound : registry.Sound) (hlives : registry.Lives handle path) :
    Guards path handle registry := by
  constructor
  · obtain ⟨subscription, hmem, rfl⟩ := hlives
    exact hsound.issued path subscription hmem
  · intro other hne
    rw [hsound.occurrences_of_lives hlives, if_neg hne]

theorem Guards.evolve (h : Guards path handle registry)
    (hevolves : Evolves (fun _ => True) registry after) : Guards path handle after := by
  refine ⟨Nat.lt_of_lt_of_le h.issued hevolves.nextHandle_le, ?_⟩
  intro other hne
  have hle := hevolves.occurrences_le h.issued other
  rw [h.elsewhere other hne] at hle
  exact Nat.le_zero.mp hle

section Script

variable {pass : Registry → Notification → PassResult}

/-- About paths that the given one does not lead to, the pass tells the subscriber nothing, unless a
subscriber that it calls starts a pass about others. -/
def Silent (path : Path) (handle : Nat) (pass : Registry → Notification → PassResult) : Prop :=
  ∀ registry notification, Guards path handle registry →
    Spares path (pass registry notification).trace → ¬ path.LeadsTo notification.path →
    heard handle (pass registry notification).trace = []

theorem heard_act (hsilent : Silent path handle pass) (h : Guards path handle registry)
    (caller : Nat) {action : Action} (hspares : Spares path (act pass caller registry action).2) :
    heard handle (act pass caller registry action).2 = [] := by
  cases action with
  | panic | count | unsubscribe _ | unsubscribeSelf => rfl
  | subscribe key script =>
      rw [act]
      cases registry.subscribeKey key script <;> rfl
  | notify key old new =>
      rw [act] at hspares ⊢
      split
      next leaf hleaf =>
        simp only [hleaf, spares_append, spares_notified] at hspares
        rw [heard_append, hsilent registry ⟨leaf, old, new⟩ h hspares.1 hspares.2]
        rfl
      next => rfl

theorem heard_runScript (hpass : Evolving (fun _ => True) pass)
    (hsilent : Silent path handle pass) (h : Guards path handle registry) (caller : Nat)
    {script : List Action} (hspares : Spares path (runScript pass caller script registry).2) :
    heard handle (runScript pass caller script registry).2 = [] := by
  induction script generalizing registry with
  | nil => rfl
  | cons action rest ih =>
      have hevolves := hereditary_true.evolves_act hpass registry.onlyRuns_true caller action rest
        trivial
      rcases runScript_cons pass caller registry action rest with hlast | hnext
      · rw [hlast] at hspares ⊢
        exact heard_act hsilent h caller hspares
      · rw [hnext, spares_append] at hspares
        rw [hnext, heard_append, heard_act hsilent h caller hspares.1,
          ih (h.evolve hevolves) hspares.2]
        rfl

/-- A subscriber hears of what is delivered as often as it is among those that are served. -/
theorem heard_deliver (hpass : Evolving (fun _ => True) pass)
    (hsilent : Silent path handle pass) (h : Guards path handle registry)
    (notification : Notification) {subscriptions : List Subscription}
    (hspares : Spares path (deliver pass notification subscriptions registry).2) :
    heard handle (deliver pass notification subscriptions registry).2 =
      List.replicate (subscriptions.countP (·.handle = handle)) notification := by
  induction subscriptions generalizing registry with
  | nil => rfl
  | cons subscription rest ih =>
      have hevolves := hereditary_true.evolves_runScript hpass registry.onlyRuns_true
        subscription.handle (subscription.script notification) trivial
      rw [deliver_cons, spares_cons, spares_append] at hspares
      rw [deliver_cons, heard_called_cons, heard_append,
        heard_runScript hpass hsilent h _ hspares.2.1, ih (h.evolve hevolves) hspares.2.2,
        List.nil_append, List.countP_cons]
      by_cases hself : subscription.handle = handle
      · simp only [hself, if_true, decide_true, List.replicate_succ]
      · simp only [hself, if_false, decide_false, Bool.false_eq_true, Nat.add_zero]

/-- A pass tells a subscriber of its change once for each time that its handle is at the path, if
the path leads to the leaf. -/
theorem heard_notifyWith (hpass : Evolving (fun _ => True) pass)
    (hsilent : Silent path handle pass) (h : Guards path handle registry)
    (notification : Notification)
    (hspares : Spares path (notifyWith pass registry notification).trace) :
    heard handle (notifyWith pass registry notification).trace =
      if path.LeadsTo notification.path then
        List.replicate (registry.occurrences handle path) notification
      else [] := by
  have hdelivered := heard_deliver hpass hsilent h notification hspares
  rw [countP_targets h.elsewhere] at hdelivered
  refine hdelivered.trans ?_
  split <;> rfl

/-- The pass evolves the registry, and is silent about what the path does not lead to. -/
def Discreet (path : Path) (handle : Nat) (pass : Registry → Notification → PassResult) : Prop :=
  Evolving (fun _ => True) pass ∧ Silent path handle pass

theorem discreet_passOver : Discreet path handle passOver :=
  ⟨evolving_passOver, fun _ _ _ _ _ => rfl⟩

theorem Discreet.notifyWith (h : Discreet path handle pass) :
    Discreet path handle (notifyWith pass) := by
  refine ⟨hereditary_true.evolving_notifyWith h.1, ?_⟩
  intro registry notification hguards hspares hnot
  rw [heard_notifyWith h.1 h.2 hguards notification hspares, if_neg hnot]

end Script

theorem heard_notify (depth : Nat) (h : Guards path handle registry) (notification : Notification)
    (hspares : Spares path (notify depth registry notification).trace) :
    heard handle (notify depth registry notification).trace =
      if path.LeadsTo notification.path then
        List.replicate (registry.occurrences handle path) notification
      else [] := by
  obtain ⟨pass, ⟨hpass, hsilent⟩, heq⟩ :=
    exists_notify_eq discreet_passOver (fun _ => Discreet.notifyWith) depth
  rw [heq] at hspares ⊢
  exact heard_notifyWith hpass hsilent h notification hspares

/-- A subscriber that stays hears of every change of a leaf that its path leads to, in order. -/
theorem heard_tell (depth : Nat) (h : Guards path handle registry)
    {notifications : List Notification} (honce : registry.occurrences handle path ≤ 1)
    (hspares : Spares path (registry.tell depth notifications).2)
    (hlives : (registry.tell depth notifications).1.Lives handle path) :
    heard handle (registry.tell depth notifications).2 =
      notifications.filter fun notification => path.LeadsTo notification.path := by
  induction notifications generalizing registry with
  | nil => rfl
  | cons notification rest ih =>
      have hfirst := hereditary_true.evolving_notify depth registry notification
        registry.onlyRuns_true
      have hthen := hereditary_true.evolves_tell depth
        (registry.notify depth notification).registry.onlyRuns_true rest
      have hguards := h.evolve hfirst
      rw [tell, spares_append] at hspares
      replace hlives : ((registry.notify depth notification).registry.tell depth rest).1.Lives
        handle path := hlives
      -- The handle is there in the end and never comes back, so it is there before each pass.
      have hend := lives_iff_occurrences_pos.mp hlives
      have hafter := hthen.occurrences_le hguards.issued path
      have hbefore := hfirst.occurrences_le h.issued path
      have hone : registry.occurrences handle path = 1 := by omega
      rw [tell, heard_append, heard_notify depth h notification hspares.1, hone,
        ih hguards (Nat.le_trans hbefore honce) hspares.2 hlives, List.filter_cons]
      by_cases hleads : path.LeadsTo notification.path <;> simp [hleads]

end Registry

mutual

/-- The action starts no pass about the path or what lies below it, nor does one that is subscribed
in it. -/
def Action.Spares (path : Path) : Action → Prop
  | .notify key _ _ => ∀ leaf, Path.parse key = .ok leaf → ¬ path.LeadsTo leaf
  | .subscribe _ script => ∀ notification, Action.AllSpare path (script notification)
  | .count | .unsubscribe _ | .unsubscribeSelf | .panic => True

/-- None of the actions does. -/
def Action.AllSpare (path : Path) : List Action → Prop
  | [] => True
  | action :: rest => action.Spares path ∧ Action.AllSpare path rest

end

namespace Registry

variable {path : Path} {registry : Registry}

theorem hereditary_allSpare (path : Path) : Hereditary (Action.AllSpare path) := by
  constructor
  · intro action rest h
    rw [Action.AllSpare] at h
    exact h.2
  · intro key script rest h
    rw [Action.AllSpare, Action.Spares] at h
    exact h.1

section Script

variable {pass : Registry → Notification → PassResult}

/-- In the pass no subscriber starts one about the path, if none of them may. -/
def SparesIn (path : Path) (pass : Registry → Notification → PassResult) : Prop :=
  ∀ registry notification, registry.OnlyRuns (Action.AllSpare path) →
    Spares path (pass registry notification).trace

theorem spares_act (hpass : SparesIn path pass) (hruns : registry.OnlyRuns (Action.AllSpare path))
    (handle : Nat) {action : Action} (hspares : action.Spares path) :
    Spares path (act pass handle registry action).2 := by
  cases action with
  | panic => exact spares_nil
  | count | unsubscribe _ | unsubscribeSelf => exact spares_of_started?_eq_none rfl
  | subscribe key script =>
      rw [act]
      cases registry.subscribeKey key script <;> exact spares_of_started?_eq_none rfl
  | notify key old new =>
      rw [Action.Spares] at hspares
      rw [act]
      split
      next leaf hleaf =>
        exact spares_append.mpr
          ⟨hpass registry ⟨leaf, old, new⟩ hruns, spares_notified.mpr (hspares leaf hleaf)⟩
      next => exact spares_of_started?_eq_none rfl

theorem spares_runScript (hevolving : Evolving (Action.AllSpare path) pass)
    (hpass : SparesIn path pass) (hruns : registry.OnlyRuns (Action.AllSpare path)) (handle : Nat)
    {script : List Action} (hscript : Action.AllSpare path script) :
    Spares path (runScript pass handle script registry).2 := by
  induction script generalizing registry with
  | nil => exact spares_nil
  | cons action rest ih =>
      have hevolves := (hereditary_allSpare path).evolves_act hevolving hruns handle action rest
        hscript
      rw [Action.AllSpare] at hscript
      have hact := spares_act hpass hruns handle hscript.1
      rcases runScript_cons pass handle registry action rest with hlast | hnext
      · rw [hlast]
        exact hact
      · rw [hnext, spares_append]
        exact ⟨hact, ih (hevolves.onlyRuns hruns) hscript.2⟩

theorem spares_deliver (hevolving : Evolving (Action.AllSpare path) pass)
    (hpass : SparesIn path pass) (hruns : registry.OnlyRuns (Action.AllSpare path))
    (notification : Notification) {subscriptions : List Subscription}
    (hscripts : ∀ subscription ∈ subscriptions,
      Action.AllSpare path (subscription.script notification)) :
    Spares path (deliver pass notification subscriptions registry).2 := by
  induction subscriptions generalizing registry with
  | nil => exact spares_nil
  | cons subscription rest ih =>
      obtain ⟨hscript, hrest⟩ := List.forall_mem_cons.mp hscripts
      have hevolves := (hereditary_allSpare path).evolves_runScript hevolving hruns
        subscription.handle _ hscript
      rw [deliver_cons, spares_cons, spares_append]
      exact ⟨spares_of_started?_eq_none rfl,
        spares_runScript hevolving hpass hruns subscription.handle hscript,
        ih (hevolves.onlyRuns hruns) hrest⟩

/-- Where no subscriber may start a pass about the path, the pass evolves the registry and starts
none. -/
def Restrained (path : Path) (pass : Registry → Notification → PassResult) : Prop :=
  Evolving (Action.AllSpare path) pass ∧ SparesIn path pass

theorem restrained_passOver : Restrained path passOver :=
  ⟨evolving_passOver, fun _ _ _ => spares_nil⟩

theorem Restrained.notifyWith (h : Restrained path pass) : Restrained path (notifyWith pass) := by
  refine ⟨(hereditary_allSpare path).evolving_notifyWith h.1, ?_⟩
  intro registry notification hruns
  exact spares_deliver h.1 h.2 hruns notification fun subscription hmem =>
    hruns.of_mem_targets notification.path subscription hmem notification

end Script

theorem restrained_notify (path : Path) (depth : Nat) : Restrained path (notify depth) :=
  notify_induction restrained_passOver (fun _ => Restrained.notifyWith) depth

/-- Where no script may start a pass about the path or what lies below it, none is started while
changes are told. -/
theorem spares_tell (depth : Nat) (hruns : registry.OnlyRuns (Action.AllSpare path))
    (notifications : List Notification) : Spares path (registry.tell depth notifications).2 := by
  induction notifications generalizing registry with
  | nil => exact spares_nil
  | cons notification rest ih =>
      obtain ⟨hevolving, hspares⟩ := restrained_notify path depth
      have hevolves := hevolving registry notification hruns
      rw [tell, spares_append]
      exact ⟨hspares registry notification hruns, ih (hevolves.onlyRuns hruns)⟩

end Registry

end PropertyTree
