import PropertyTree.Proofs.Session.Relay

/-! # Subscribers that keep a mirror

A subscriber that only records what it hears can keep a mirror of the values at or below its path
and need not look at the store again. The other subscribers may come and go as they like, but a pass
that one of them starts on its own about such a path would be taken for a change.
-/

namespace PropertyTree

/-- The values at or below a path. -/
def Store.valuesBelow (store : Store) (path : Path) : Mirror :=
  store.values.filterKeys fun other => path.LeadsTo other

namespace Session

/-- The session can come about: from an empty one, by operations, by subscribing and unsubscribing,
and by passes that are started from outside. -/
inductive Reachable : Session → Prop
  | new (schema : Schema) (options : Options) (validateSnapshot : Bool) :
      Reachable (new schema options validateSnapshot)
  | perform {session : Session} (depth : Nat) (operation : Operation) :
      Reachable session → Reachable (session.perform depth operation).session
  | subscribe {session : Session} (path : Path) (script : Script) : Reachable session →
      Reachable { session with registry := (session.registry.subscribe path script).1 }
  | unsubscribe {session : Session} (handle : Nat) : Reachable session →
      Reachable { session with registry := (session.registry.unsubscribe handle).1 }
  | notify {session : Session} (depth : Nat) (notification : Notification) : Reachable session →
      Reachable { session with registry := (session.registry.notify depth notification).registry }

theorem registry_bulkLoad (session : Session) (members : List (String × Json)) :
    (session.bulkLoad members).session.registry = session.registry := by
  rcases session.bulkLoad_cases members with ⟨_, hload⟩ | ⟨_, _, _, hload⟩ <;> rw [hload]

theorem sound_perform {session : Session} (h : session.registry.Sound) (depth : Nat)
    (operation : Operation) : (session.perform depth operation).session.registry.Sound := by
  cases hload : operation.isLoad with
  | true =>
      cases operation with
      | load members =>
          rw [perform, registry_bulkLoad]
          exact h
      | apply _ | applyWire _ | applyBatch _ | applyDocument _ => cases hload
  | false =>
      rw [(session.relays_perform depth hload).registry]
      exact (Registry.hereditary_true.evolves_tell depth session.registry.onlyRuns_true _).sound h

theorem Reachable.sound {session : Session} (h : session.Reachable) : session.registry.Sound := by
  induction h with
  | new => exact .empty
  | perform depth operation _ ih => exact sound_perform ih depth operation
  | subscribe path script _ ih => exact ih.subscribe path script
  | unsubscribe handle _ ih => exact ih.unsubscribe handle
  | @notify session depth notification _ ih =>
      exact (Registry.hereditary_true.evolving_notify depth session.registry notification
        session.registry.onlyRuns_true).sound ih

section Mirror

variable (depth : Nat)

/-- What the subscriber with this handle hears during a run. -/
def heardBy (session : Session) (handle : Nat) (operations : List Operation) :
    List Notification :=
  Registry.heard handle (session.performAll depth operations).trace

/-- What the subscriber hears during a run is just what it takes to keep a mirror of the values at
or below its path. -/
structure KeepsMirror (session : Session) (path : Path) (handle : Nat)
    (operations : List Operation) : Prop where
  /-- Putting each new value in the place of the old one leads from the values before the run to
  those after it. -/
  values : (session.heardBy depth handle operations).foldl Mirror.hear
      (session.store.valuesBelow path) =
    (session.performAll depth operations).session.store.valuesBelow path
  /-- Each old value is the one that the mirror then has, and the new one is another. -/
  old : ∀ front notification back,
    session.heardBy depth handle operations = front ++ notification :: back →
    notification.old =
        (front.foldl Mirror.hear (session.store.valuesBelow path)).get? notification.path ∧
      notification.old ≠ notification.new
  /-- There are as many as there are changes at or below the path among the results. -/
  length : (session.heardBy depth handle operations).length =
    ((session.performAll depth operations).result.filterMap Report.change?).countP
      fun change => path.LeadsTo change.path

end Mirror

/-- As long as nothing is loaded, a subscriber that stays can keep a mirror of the values at or
below its path, if during the run no subscriber starts a pass about that path or what lies below
it. -/
theorem keepsMirror_of_spares {session : Session} (hreachable : session.Reachable) {depth : Nat}
    {path : Path} {handle : Nat} (hlives : session.registry.Lives handle path)
    {operations : List Operation} (hloads : ∀ operation ∈ operations, operation.isLoad = false)
    (hspares : Registry.Spares path (session.performAll depth operations).trace)
    (hstays : (session.performAll depth operations).session.registry.Lives handle path) :
    session.KeepsMirror depth path handle operations := by
  have hsound := hreachable.sound
  have hrelays := session.relays_performAll depth hloads
  have honce : session.registry.occurrences handle path ≤ 1 :=
    Nat.le_of_eq ((hsound.occurrences_of_lives hlives path).trans (if_pos rfl))
  rw [hrelays.registry] at hstays
  rw [hrelays.trace] at hspares
  have hheard : session.heardBy depth handle operations =
      (Report.told (session.performAll depth operations).result).filter
        fun notification => path.LeadsTo notification.path := by
    rw [heardBy, hrelays.trace]
    exact Registry.heard_tell depth (hsound.guards hlives) honce hspares hstays
  have hfollows : Mirror.Follows (session.store.valuesBelow path)
      (session.heardBy depth handle operations)
      ((session.performAll depth operations).session.store.valuesBelow path) := by
    rw [hheard]
    exact hrelays.values.filterKeys _
  refine ⟨hfollows.foldl_hear, fun front notification back => hfollows.old_eq, ?_⟩
  rw [hheard, ← List.countP_eq_length_filter, Report.told, List.countP_map]
  rfl

/-- Where no script may start a pass about the path or what lies below it, none is started during a
run. -/
theorem spares_performAll {session : Session} {path : Path}
    (hruns : session.registry.OnlyRuns (Action.AllSpare path)) (depth : Nat)
    {operations : List Operation}
    (hloads : ∀ operation ∈ operations, operation.isLoad = false) :
    Registry.Spares path (session.performAll depth operations).trace := by
  rw [(session.relays_performAll depth hloads).trace]
  exact Registry.spares_tell depth hruns _

/-- A session of the lamp with a subscriber on its switch and another one, which runs the script, on
its brightness. -/
def watchedLamp (script : Script) : Session :=
  { new .lamp ⟨false⟩ false with
    registry := (((Registry.empty.subscribe .lampOn fun _ => []).1).subscribe .lampDim script).1 }

theorem reachable_watchedLamp (script : Script) : (watchedLamp script).Reachable :=
  .subscribe .lampDim script (.subscribe .lampOn (fun _ => []) (.new .lamp ⟨false⟩ false))

theorem lives_watchedLamp (script : Script) :
    (watchedLamp script).registry.Lives 0 .lampOn := ⟨⟨0, fun _ => []⟩, .head _, rfl⟩

theorem onlyRuns_watchedLamp {admits : List Action → Prop} {script : Script}
    (hnothing : admits []) (hscript : ∀ notification, admits (script notification)) :
    (watchedLamp script).registry.OnlyRuns admits :=
  (Registry.Evolves.subscribe .lampDim (.subscribe .lampOn .refl fun _ => hnothing)
    hscript).onlyRuns Registry.onlyRuns_empty

/-- A script that tells the subscribers of the switch of a change that never was. -/
def forgery : Script := fun _ => [.notify "lamp.on" none (some (.bool true))]

/-- A change that is made up by another subscriber is heard and spoils the mirror. -/
theorem not_keepsMirror_of_forgery :
    ¬ ∀ (session : Session) (depth : Nat) (path : Path) (handle : Nat)
      (operations : List Operation),
      session.Reachable → session.registry.Lives handle path →
      (∀ operation ∈ operations, operation.isLoad = false) →
      (session.performAll depth operations).session.registry.Lives handle path →
      session.KeepsMirror depth path handle operations := by
  intro hkeeps
  have hmirror := hkeeps (watchedLamp forgery) 1 .lampOn 0
    [.apply (.set .lampDim (.bool true) none)]
    (reachable_watchedLamp _) (lives_watchedLamp _) (by decide)
    (Registry.lives_iff_occurrences_pos.mpr (by decide +kernel))
  exact absurd hmirror.length (by decide +kernel)

/-- A script that tells of a deletion as soon as it hears of a new leaf, subscribes and leaves. -/
def errand : Script := fun notification =>
  if notification.old.isSome then [.count]
  else [.notify "lamp.dim" notification.new none, .subscribe "lamp" fun _ => [], .unsubscribeSelf]

/-- The brightness is set, and the switch is set and deleted. -/
def switching : List Operation :=
  [.apply (.set .lampDim (.bool true) none), .apply (.set .lampOn (.bool true) none),
    .apply (.delete .lampOn)]

theorem allSpare_errand : (watchedLamp errand).registry.OnlyRuns (Action.AllSpare .lampOn) := by
  apply onlyRuns_watchedLamp
  · trivial
  · intro notification
    have hdim : ∀ leaf, Path.parse "lamp.dim" = .ok leaf → ¬ Path.LeadsTo .lampOn leaf := by
      intro leaf hleaf
      obtain rfl : Path.lampDim = leaf := Except.ok.inj hleaf
      decide
    rw [errand]
    split
    next => simp [Action.AllSpare, Action.Spares]
    next => simpa [Action.AllSpare, Action.Spares] using hdim

theorem keepsMirror_of_spares_lamp :
    (watchedLamp errand).Reachable ∧ (watchedLamp errand).registry.Lives 0 .lampOn ∧
      (∀ operation ∈ switching, operation.isLoad = false) ∧
      Registry.Spares .lampOn ((watchedLamp errand).performAll 1 switching).trace ∧
      ((watchedLamp errand).performAll 1 switching).session.registry.Lives 0 .lampOn ∧
      (watchedLamp errand).KeepsMirror 1 .lampOn 0 switching := by
  have hreachable := reachable_watchedLamp errand
  have hlives := lives_watchedLamp errand
  have hloads : ∀ operation ∈ switching, operation.isLoad = false := by decide
  have hspares : Registry.Spares .lampOn ((watchedLamp errand).performAll 1 switching).trace :=
    spares_performAll allSpare_errand 1 hloads
  have hstays : ((watchedLamp errand).performAll 1 switching).session.registry.Lives 0 .lampOn := by
    rw [Registry.lives_iff_occurrences_pos]
    decide +kernel
  exact ⟨hreachable, hlives, hloads, hspares, hstays,
    keepsMirror_of_spares hreachable hlives hloads hspares hstays⟩

end Session

end PropertyTree
