import PropertyTree.Proofs.Session.Run
import PropertyTree.Proofs.Store.Mirror
import PropertyTree.Proofs.Subscription.Hearing

/-! # What a session relays

Whichever way events come in, the session tells its subscribers of just the changes that the results
report, in their order. What they do meanwhile depends on the registry and on these changes alone.
-/

namespace PropertyTree

namespace Session

variable (depth : Nat)

/-- Performs operations in order. -/
def performAll (session : Session) : List Operation → Step (List (Except Failure Outcome))
  | [] => ⟨session, [], []⟩
  | operation :: rest =>
    let first := session.perform depth operation
    let later := performAll first.session rest
    ⟨later.session, first.result ++ later.result, first.trace ++ later.trace⟩

theorem performAll_append (session : Session) (front back : List Operation) :
    session.performAll depth (front ++ back) =
      let earlier := session.performAll depth front
      let later := earlier.session.performAll depth back
      ⟨later.session, earlier.result ++ later.result, earlier.trace ++ later.trace⟩ := by
  induction front generalizing session with
  | nil => rfl
  | cons operation rest ih =>
      rw [List.cons_append, performAll, ih]
      simp only [performAll, List.append_assoc]

theorem alike_performAll (session : Session) (operations : List Operation) :
    Alike (session.performAll depth operations).session session := by
  induction operations generalizing session with
  | nil => exact .refl session
  | cons operation rest ih => exact (ih _).trans (session.alike_perform depth operation)

/-- From one session to another the results are told to the subscribers, and nothing else is. -/
structure Relays (before : Session) (results : List (Except Failure Outcome))
    (trace : List TraceEntry) (after : Session) : Prop where
  values : Mirror.Follows before.store.values (Report.told results) after.store.values
  registry : after.registry = (before.registry.tell depth (Report.told results)).1
  trace : trace = (before.registry.tell depth (Report.told results)).2

namespace Relays

theorem refl (session : Session) : Relays depth session [] [] session := ⟨.nil _, rfl, rfl⟩

variable {depth}

theorem append {before middle after : Session} {front back : List (Except Failure Outcome)}
    {earlier later : List TraceEntry} (hfront : Relays depth before front earlier middle)
    (hback : Relays depth middle back later after) :
    Relays depth before (front ++ back) (earlier ++ later) after := by
  constructor
  · rw [Report.told_append]
    exact hfront.values.append hback.values
  · rw [Report.told_append, Registry.tell_append, ← hfront.registry]
    exact hback.registry
  · rw [Report.told_append, Registry.tell_append, ← hfront.registry, ← hfront.trace,
      ← hback.trace]

end Relays

/-- Relaying changes one after the other tells all of them. -/
theorem foldl_relay (told : Registry × List TraceEntry) (changes : List Change) :
    changes.foldl (relay depth) told =
      let later := told.1.tell depth (changes.map Change.notification)
      (later.1, told.2 ++ later.2) := by
  induction changes generalizing told with
  | nil => exact Prod.ext rfl (List.append_nil _).symm
  | cons change rest ih =>
      rw [List.foldl_cons, ih, List.map_cons, Registry.tell]
      simp only [relay, List.append_assoc]

/-- Relaying the changes among results tells them, if the store has gone along. -/
theorem relays_foldl {session : Session} {store : Store} {results : List (Except Failure Outcome)}
    (hvalues : Mirror.Follows session.store.values (Report.told results) store.values) :
    let told := (results.filterMap Report.change?).foldl (relay depth) (session.registry, [])
    Relays depth session results told.2 { session with store, registry := told.1 } := by
  rw [foldl_relay]
  exact ⟨hvalues, rfl, rfl⟩

theorem relays_settle (session : Session) (attempt : Except Failure (Store × Outcome))
    (hvalues : Mirror.Follows session.store.values
      (Report.told [(session.store.settle attempt).2]) (session.store.settle attempt).1.values) :
    Relays depth session [(session.settle depth attempt).result]
      (session.settle depth attempt).trace (session.settle depth attempt).session := by
  have hrelays := relays_foldl depth hvalues
  have hchange : ∀ result : Except Failure Outcome,
      [result].filterMap Report.change? = (Report.change? result).toList := by
    intro result
    cases h : Report.change? result with
    | none => exact List.filterMap_cons_none h
    | some change => exact List.filterMap_cons_some h
  rw [hchange] at hrelays
  rw [settle_eq]
  exact hrelays

theorem relays_apply (session : Session) (event : Event) :
    Relays depth session [(session.apply depth event).result] (session.apply depth event).trace
      (session.apply depth event).session :=
  relays_settle depth session _ (session.store.follows_next session.options session.schema event)

theorem relays_applyBatch (session : Session) (events : List WireEvent) :
    let step := session.applyBatch depth events
    Relays depth session step.result.results step.trace step.session := by
  rw [applyBatch_eq]
  simp only [Report.results_ofResults]
  exact relays_foldl depth
    ((Store.follows_law session.options session.schema).applyAllWire session.store events)

theorem relays_applyEach (session : Session) (index : Nat) (report : Report)
    (events : List Event) :
    let step := session.applyEach depth index report events
    Relays depth session (session.store.applyAll session.options session.schema events).2
      step.trace step.session := by
  induction events generalizing session index report with
  | nil => exact .refl depth session
  | cons event rest ih =>
      have hfirst := session.relays_apply depth event
      have halike := session.alike_apply depth event
      have hrest := ih (session.apply depth event).session (index + 1)
        (report.record index (session.apply depth event).result)
      rw [result_apply] at hfirst
      rw [halike.schema, halike.options, store_apply] at hrest
      exact hfirst.append hrest

/-- The operation replaces the contents of the store. -/
def Operation.isLoad : Operation → Bool
  | .load _ => true
  | .apply _ | .applyWire _ | .applyBatch _ | .applyDocument _ => false

theorem relays_perform (session : Session) {operation : Operation}
    (hload : operation.isLoad = false) :
    let step := session.perform depth operation
    Relays depth session step.result step.trace step.session := by
  cases operation with
  | load members => cases hload
  | apply event => exact session.relays_apply depth event
  | applyWire event =>
      exact relays_settle depth session _
        ((Store.follows_law session.options session.schema).nextWire session.store event)
  | applyBatch events => exact session.relays_applyBatch depth events
  | applyDocument event =>
      rw [perform_applyDocument]
      cases Event.expand event with
      | error failure => exact ⟨.nil _, rfl, rfl⟩
      | ok events => exact session.relays_applyEach depth 0 .empty events

theorem relays_performAll (session : Session) {operations : List Operation}
    (hloads : ∀ operation ∈ operations, operation.isLoad = false) :
    let step := session.performAll depth operations
    Relays depth session step.result step.trace step.session := by
  induction operations generalizing session with
  | nil => exact .refl depth session
  | cons operation rest ih =>
      obtain ⟨hload, hrest⟩ := List.forall_mem_cons.mp hloads
      exact (session.relays_perform depth hload).append (ih _ hrest)

end Session

end PropertyTree
