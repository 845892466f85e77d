import PropertyTree.Proofs.Store.Independence
import PropertyTree.Proofs.Store.Run

/-! # Rejected events leave no trace

An event that fails, comes too late or finds nothing to delete leaves the store as it is. A batch
therefore runs as if these events had never been sent: the others meet the same stores, and come to
the same.
-/

namespace PropertyTree

namespace Report

/-- The event was neither refused nor without anything to delete. -/
def isTaken : Except Failure Outcome → Bool
  | .ok (.applied _) | .ok (.noOp .unchanged) => true
  | .ok (.noOp (.stale _ _)) | .ok (.noOp .absent) | .error _ => false

theorem change?_of_not_isTaken {result : Except Failure Outcome} (h : isTaken result = false) :
    change? result = none := by
  cases result with
  | error failure => rfl
  | ok outcome =>
      cases outcome with
      | applied change => cases h
      | noOp reason => rfl

end Report

open Report (isTaken)

/-- An event that is not taken makes the leaf held of the leaf held. -/
theorem Event.revise_of_not_isTaken {event : Event} {held : Option Leaf}
    (h : isTaken (.ok (event.revise held).2) = false) : (event.revise held).1 = held := by
  cases event with
  | set path value version =>
      cases held with
      | none => cases h
      | some held =>
          cases hrefusal : held.refusal? version with
          | some reason => rw [revise_of_refusal hrefusal]
          | none =>
              rw [revise_of_accepted hrefusal] at h
              split at h <;> cases h
  | delete path =>
      cases held with
      | none => rfl
      | some held => cases h

namespace Store

variable {options : Options} {schema : Schema}

/-- An event that is not taken leaves the store as it is. -/
theorem next_of_not_isTaken {store : Store} {event : Event}
    (h : isTaken (store.answer options schema event) = false) :
    store.next options schema event = store := by
  apply next_of_advance_eq
  intro held hslot
  rw [answer_eq, hslot, Slot.answer] at h
  rw [Event.advance, Event.isAdmitted]
  cases hcheck : event.check options schema with
  | error failure => simp
  | ok _ =>
      rw [hcheck] at h
      simpa using Event.revise_of_not_isTaken h

theorem nextWire_of_not_isTaken {store : Store} {event : WireEvent}
    (h : isTaken (store.answerWire options schema event) = false) :
    store.nextWire options schema event = store := by
  rw [answerWire, applyWire] at h
  rw [nextWire, applyWire]
  cases hread : Event.ofWire event with
  | error failure => rfl
  | ok event =>
      rw [hread] at h
      exact next_of_not_isTaken h

variable (options schema)

/-- The events of a batch that are taken, with their results. -/
def takenOf (store : Store) (events : List WireEvent) :
    List (WireEvent × Except Failure Outcome) :=
  (events.zip (store.applyAllWire options schema events).2).filter fun entry => isTaken entry.2

theorem takenOf_cons (store : Store) (event : WireEvent) (rest : List WireEvent) :
    store.takenOf options schema (event :: rest) =
      if isTaken (store.answerWire options schema event) then
        (event, store.answerWire options schema event) ::
          (store.nextWire options schema event).takenOf options schema rest
      else store.takenOf options schema rest := by
  simp only [takenOf, applyAllWire_cons, List.zip_cons_cons, List.filter_cons]
  split
  next => rfl
  next h => rw [nextWire_of_not_isTaken (Bool.eq_false_iff.mpr h)]

/-- Without the others, the events that are taken end in the same store with the same results. -/
theorem applyAllWire_takenOf (store : Store) (events : List WireEvent) :
    store.applyAllWire options schema ((store.takenOf options schema events).map (·.1)) =
      ((store.applyAllWire options schema events).1,
        (store.takenOf options schema events).map (·.2)) := by
  induction events generalizing store with
  | nil => rfl
  | cons event rest ih =>
      rw [takenOf_cons, applyAllWire_cons options schema store event rest]
      split
      next => rw [List.map_cons, List.map_cons, applyAllWire_cons, ih]
      next h => rw [ih, nextWire_of_not_isTaken (Bool.eq_false_iff.mpr h)]

/-- The changes of a run are those of the events that are taken. -/
theorem filterMap_change?_takenOf (store : Store) (events : List WireEvent) :
    ((store.takenOf options schema events).map (·.2)).filterMap Report.change? =
      (store.applyAllWire options schema events).2.filterMap Report.change? := by
  induction events generalizing store with
  | nil => rfl
  | cons event rest ih =>
      rw [takenOf_cons, applyAllWire_cons, List.filterMap_cons]
      split
      next => rw [List.map_cons, List.filterMap_cons, ih]
      next h =>
        have hnot := Bool.eq_false_iff.mpr h
        rw [Report.change?_of_not_isTaken hnot, nextWire_of_not_isTaken hnot, ih]

/-- A batch without the events that it rejected, as failures, as stale or as absent, ends in the
same store, hands over the same changes in the same order and has no failures, and each event that
is left has the result it had. -/
theorem applyBatch_without_rejected (store : Store) (events : List WireEvent) {σ : Type}
    (onApplied : σ → Change → σ) (state : σ) :
    let full := store.applyBatch options schema onApplied state events
    let kept := (events.zip full.report.results).filter fun entry => isTaken entry.2
    let again := store.applyBatch options schema onApplied state (kept.map (·.1))
    full.report.results.length = events.length ∧ again.store = full.store ∧
      again.state = full.state ∧ again.report.changes = full.report.changes ∧
      again.report.failures = [] ∧ again.report.results = kept.map (·.2) := by
  intro full kept again
  let run := store.applyAllWire options schema events
  have hfull : full = ⟨run.1, (run.2.filterMap Report.change?).foldl onApplied state,
      .ofResults run.2⟩ := store.applyBatch_eq options schema onApplied state events
  have hresults : full.report.results = run.2 := by rw [hfull, Report.results_ofResults]
  have hkept : kept = store.takenOf options schema events := by
    simp only [kept, hresults]
    rfl
  have hchanges := store.filterMap_change?_takenOf options schema events
  have hagain : again = ⟨run.1, (run.2.filterMap Report.change?).foldl onApplied state,
      .ofResults (kept.map (·.2))⟩ := by
    simp only [again, applyBatch_eq, hkept, applyAllWire_takenOf, hchanges, run]
  refine ⟨?_, ?_, ?_, ?_, ?_, ?_⟩
  · rw [hresults, length_applyAllWire]
  · rw [hagain, hfull]
  · rw [hagain, hfull]
  · rw [hagain, hfull, Report.changes_ofResults, Report.changes_ofResults, hkept]
    exact hchanges
  · rw [hagain, Report.failures_eq_nil_iff]
    intro failure hmem
    obtain ⟨⟨event, result⟩, hmem, hresult⟩ := List.mem_map.mp hmem
    have htaken := (List.mem_filter.mp hmem).2
    rw [hresult] at htaken
    cases htaken
  · rw [hagain, Report.results_ofResults]

end Store

end PropertyTree
