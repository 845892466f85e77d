import PropertyTree.Proofs.Event.Expansion
import PropertyTree.Proofs.Session.Subscriber
import PropertyTree.Proofs.Store.Isolation
import PropertyTree.Proofs.Store.Positions

/-! # The ways into a session agree

A batch and a document go through their events in loops of their own, and tell each change before
the next event. So a batch comes to the same as its events one by one, and a wire event that carries
no document to the same either way. Every report accounts for each of its events.
-/

namespace PropertyTree

namespace Session

theorem Alike.eq {left right : Session} (h : Alike left right) (hstore : left.store = right.store)
    (hregistry : left.registry = right.registry) : left = right := by
  cases left
  cases right
  cases h
  simp_all

variable (depth : Nat) (session : Session)

theorem applyWire_of_ofWire {wire : WireEvent} {event : Event}
    (h : Event.ofWire wire = .ok event) :
    session.applyWire depth wire = session.apply depth event := by
  rw [applyWire, apply, Store.applyWire, h]
  rfl

/-- Wire events that come one by one run on the store as a list. -/
theorem performAll_applyWire (events : List WireEvent) :
    let run := session.store.applyAllWire session.options session.schema events
    let single := session.performAll depth (events.map .applyWire)
    single.session.store = run.1 ∧ single.result = run.2 ∧ Alike single.session session := by
  intro run single
  induction events generalizing session with
  | nil => exact ⟨rfl, rfl, .refl session⟩
  | cons event rest ih =>
      have halike := session.alike_applyWire depth event
      obtain ⟨hstore, hresult, hrest⟩ := ih (session.applyWire depth event).session
      rw [halike.schema, halike.options, store_applyWire] at hstore hresult
      refine ⟨hstore, ?_, hrest.trans halike⟩
      have hfirst := session.result_applyWire depth event
      exact congrArg₂ List.cons hfirst hresult

/-- A batch does to the session what its events do one by one. -/
theorem applyBatch_eq_performAll (events : List WireEvent) :
    let batch := session.applyBatch depth events
    let single := session.performAll depth (events.map .applyWire)
    batch.session = single.session ∧ batch.result = .ofResults single.result ∧
      batch.trace = single.trace := by
  intro batch single
  obtain ⟨hstore, hresult, halike⟩ := session.performAll_applyWire depth events
  have hloads : ∀ operation ∈ events.map Operation.applyWire, operation.isLoad = false := by
    rw [List.forall_mem_map]
    exact fun _ _ => rfl
  have hrun := session.applyBatch_eq depth events
  have hbatch : Relays depth session batch.result.results batch.trace batch.session :=
    session.relays_applyBatch depth events
  have hsingle := session.relays_performAll depth hloads
  have hreport : batch.result = .ofResults single.result := by
    rw [hresult]
    exact congrArg Step.result hrun
  have hresults : batch.result.results = single.result := by
    rw [hreport, Report.results_ofResults]
  rw [hresults] at hbatch
  refine ⟨?_, hreport, hbatch.trace.trans hsingle.trace.symm⟩
  have hfirst : Alike batch.session session := session.alike_perform depth (.applyBatch events)
  refine (hfirst.trans halike.symm).eq ?_ (hbatch.registry.trans hsingle.registry.symm)
  rw [hstore]
  exact congrArg (Session.store ∘ Step.session) hrun

/-- A wire event without a document fares as a document as it does by itself. -/
theorem applyDocument_of_not_isDocument {wire : WireEvent} (h : wire.isDocument = false) :
    session.applyDocument depth wire =
      match Event.ofWire wire with
      | .error failure => ⟨session, .error failure, []⟩
      | .ok _ =>
        let single := session.applyWire depth wire
        ⟨single.session, .ok (.ofResults [single.result]), single.trace⟩ := by
  rw [applyDocument, Event.expand_of_not_isDocument h]
  cases hread : Event.ofWire wire with
  | error failure => rfl
  | ok event =>
      simp only [session.applyWire_of_ofWire depth hread]
      exact congrArg (Step.mk _ _) (List.append_nil _)

/-- The entry points agree: a batch does what its events do one by one, an event without a document
does as a document what it does by itself, and reports account for all events. -/
theorem entryPoints_agree :
    (∀ events : List WireEvent,
      let batch := session.applyBatch depth events
      let single := session.performAll depth (events.map .applyWire)
      batch.session = single.session ∧ batch.trace = single.trace ∧
        batch.result.results = single.result ∧ batch.result.Covers events.length) ∧
    (∀ event : WireEvent, event.isDocument = false →
      (∀ failure, (session.applyDocument depth event).result = .error failure ↔
        Event.ofWire event = .error failure) ∧
      session.applyDocument depth event =
        match Event.ofWire event with
        | .error failure => ⟨session, .error failure, []⟩
        | .ok _ =>
          let single := session.applyWire depth event
          ⟨single.session, .ok (.ofResults [single.result]), single.trace⟩) ∧
    ∀ event report, (session.applyDocument depth event).result = .ok report →
      ∃ events, Event.expand event = .ok events ∧ report.Covers events.length := by
  refine ⟨fun events => ?_, fun event hevent => ?_, fun event report hreport => ?_⟩
  · obtain ⟨hsession, hreport, htrace⟩ := session.applyBatch_eq_performAll depth events
    have hlength : (session.performAll depth (events.map .applyWire)).result.length =
        events.length := by
      rw [(session.performAll_applyWire depth events).2.1, Store.length_applyAllWire]
    refine ⟨hsession, htrace, ?_, ?_⟩
    · rw [hreport, Report.results_ofResults]
    · rw [hreport, ← hlength]
      exact Report.covers _
  · have hdocument := session.applyDocument_of_not_isDocument depth hevent
    refine ⟨fun failure => ?_, hdocument⟩
    rw [hdocument]
    cases Event.ofWire event <;> simp
  · rw [applyDocument] at hreport
    split at hreport
    next => cases hreport
    next events hexpand =>
      cases hreport
      refine ⟨events, hexpand, ?_⟩
      rw [(session.applyEach_eq depth 0 .empty events).2.1,
        ← session.store.length_applyAll session.options session.schema events]
      exact Report.covers _

/-- Switches the lamp on. -/
def switchOn : WireEvent := .set "lamp.on" (some (.bool true)) none

/-- The lamp is switched on and then dimmed; in between, a property is set that it does not have. -/
def mixedBatch : List WireEvent :=
  [switchOn, .set "lamp.hue" (some (.bool true)) none, .set "lamp.dim" (some (.bool true)) none]

theorem entryPoints_agree_switchOn :
    let session := watchedLamp errand
    let batch := session.applyBatch 1 mixedBatch
    let byOne := session.performAll 1 (mixedBatch.map .applyWire)
    let single := session.applyWire 1 switchOn
    let document := session.applyDocument 1 switchOn
    (batch.session = byOne.session ∧ batch.trace = byOne.trace ∧
      batch.result.results = byOne.result ∧ batch.result.Covers 3 ∧
      batch.result.appliedCount = 2 ∧ batch.result.failed = [1]) ∧
    switchOn.isDocument = false ∧
      document = ⟨single.session, .ok (.ofResults [single.result]), single.trace⟩ ∧
      ∃ report events, document.result = .ok report ∧ Event.expand switchOn = .ok events ∧
        report.Covers events.length := by
  intro session batch byOne single document
  have hplain : switchOn.isDocument = false := rfl
  obtain ⟨hbatches, hevents, hreports⟩ := entryPoints_agree 1 session
  obtain ⟨hsession, htrace, hresults, hcovers⟩ := hbatches mixedBatch
  have hdocument : document = ⟨single.session, .ok (.ofResults [single.result]), single.trace⟩ :=
    (hevents switchOn hplain).2
  have hresult : document.result = .ok (.ofResults [single.result]) :=
    congrArg Step.result hdocument
  obtain ⟨events, hexpand, hwhole⟩ := hreports switchOn _ hresult
  refine ⟨⟨hsession, htrace, hresults, hcovers, ?_, ?_⟩, hplain, hdocument, _, events, hresult,
    hexpand, hwhole⟩
  · decide +kernel
  · decide +kernel

end Session

end PropertyTree
