import PropertyTree.Proofs.Event.Reading
import PropertyTree.Proofs.Store.Positions
import PropertyTree.Proofs.Store.Revision

/-! # Runs of a store

A run applies events in order, whatever becomes of each. What every event does, a run does: a law
says what relation there is between the store before an event, its result and the store after it,
and holds for lists of events and for batches of wire events alike. A batch is a run with a report
of its results; what is made of its changes on the way could as well be made of them in the end.
-/

namespace PropertyTree

namespace Store

variable (options : Options) (schema : Schema)

/-- The store after checked events, and their results in order. -/
def applyAll (store : Store) : List Event → Store × List (Except Failure Outcome)
  | [] => (store, [])
  | event :: rest =>
    let (store, result) := store.settle (store.apply options schema event)
    let (store, results) := applyAll store rest
    (store, result :: results)

/-- The store after wire events, and their results in order. -/
def applyAllWire (store : Store) : List WireEvent → Store × List (Except Failure Outcome)
  | [] => (store, [])
  | event :: rest =>
    let (store, result) := store.settle (store.applyWire options schema event)
    let (store, results) := applyAllWire store rest
    (store, result :: results)

/-- The store after a run. -/
def after (store : Store) (events : List Event) : Store :=
  (store.applyAll options schema events).1

@[simp] theorem after_nil (store : Store) : store.after options schema [] = store := rfl

@[simp] theorem after_cons (store : Store) (event : Event) (rest : List Event) :
    store.after options schema (event :: rest) =
      (store.next options schema event).after options schema rest := rfl

theorem after_eq_foldl (store : Store) (events : List Event) :
    store.after options schema events = events.foldl (next options schema) store := by
  induction events generalizing store with
  | nil => rfl
  | cons event rest ih => rw [after_cons, ih, List.foldl_cons]

theorem after_append (store : Store) (front back : List Event) :
    store.after options schema (front ++ back) =
      (store.after options schema front).after options schema back := by
  induction front generalizing store with
  | nil => rfl
  | cons event rest ih => rw [List.cons_append, after_cons, after_cons, ih]

/-- The store after a wire event, accepted or not. -/
def nextWire (store : Store) (event : WireEvent) : Store :=
  (store.settle (store.applyWire options schema event)).1

/-- The result of a wire event. -/
def answerWire (store : Store) (event : WireEvent) : Except Failure Outcome :=
  (store.settle (store.applyWire options schema event)).2

theorem applyAllWire_cons (store : Store) (event : WireEvent) (rest : List WireEvent) :
    store.applyAllWire options schema (event :: rest) =
      (((store.nextWire options schema event).applyAllWire options schema rest).1,
        store.answerWire options schema event ::
          ((store.nextWire options schema event).applyAllWire options schema rest).2) := rfl

theorem length_applyAll (store : Store) (events : List Event) :
    (store.applyAll options schema events).2.length = events.length := by
  induction events generalizing store with
  | nil => rfl
  | cons event rest ih => exact congrArg (· + 1) (ih _)

theorem length_applyAllWire (store : Store) (events : List WireEvent) :
    (store.applyAllWire options schema events).2.length = events.length := by
  induction events generalizing store with
  | nil => rfl
  | cons event rest ih => exact congrArg (· + 1) (ih _)

/-- Wire events run as those of them that can be read. -/
theorem applyAllWire_fst (store : Store) (events : List WireEvent) :
    (store.applyAllWire options schema events).1 =
      store.after options schema
        (events.filterMap fun event => (Event.ofWire event).toOption) := by
  induction events generalizing store with
  | nil => rfl
  | cons wire rest ih =>
      rw [applyAllWire, List.filterMap_cons, applyWire]
      cases Event.ofWire wire with
      | error failure => exact ih store
      | ok event => exact ih (store.next options schema event)

section Batch

variable {σ : Type} (onApplied : σ → Change → σ)

theorem continueBatch_cons (batch : Batch σ) (index : Nat) (event : WireEvent)
    (rest : List WireEvent) :
    continueBatch options schema onApplied batch index (event :: rest) =
      continueBatch options schema onApplied
        ⟨batch.store.nextWire options schema event,
          (Report.change? (batch.store.answerWire options schema event)).toList.foldl onApplied
            batch.state,
          batch.report.record index (batch.store.answerWire options schema event)⟩
        (index + 1) rest := by
  rw [continueBatch, nextWire, answerWire]
  cases batch.store.applyWire options schema event with
  | error failure => rfl
  | ok made =>
      obtain ⟨after, outcome⟩ := made
      cases outcome <;> rfl

/-- Where a batch goes on, the store runs through the events that are left, the changes among their
results are handed over in order, and the results are taken down. -/
theorem continueBatch_eq (batch : Batch σ) (index : Nat) (events : List WireEvent) :
    continueBatch options schema onApplied batch index events =
      let run := batch.store.applyAllWire options schema events
      ⟨run.1, (run.2.filterMap Report.change?).foldl onApplied batch.state,
        batch.report.recordAll index run.2⟩ := by
  induction events generalizing batch index with
  | nil => rfl
  | cons event rest ih =>
      rw [continueBatch_cons, ih, applyAllWire_cons]
      simp only [List.filterMap_cons]
      cases Report.change? (batch.store.answerWire options schema event) <;> rfl

/-- A batch is a run. Handing over each change before the next event comes to the same as handing
over all of them in the end. -/
theorem applyBatch_eq (store : Store) (state : σ) (events : List WireEvent) :
    store.applyBatch options schema onApplied state events =
      let run := store.applyAllWire options schema events
      ⟨run.1, (run.2.filterMap Report.change?).foldl onApplied state, .ofResults run.2⟩ :=
  continueBatch_eq options schema onApplied ⟨store, state, .empty⟩ 0 events

end Batch

end Store

/-- What every event does to the store under its result. It is done by a run from its first store to
its last, too. -/
structure RunLaw (options : Options) (schema : Schema)
    (does : Store → List (Except Failure Outcome) → Store → Prop) : Prop where
  nil : ∀ store, does store [] store
  append : ∀ {before middle after front back},
    does before front middle → does middle back after → does before (front ++ back) after
  next : ∀ store event,
    does store [store.answer options schema event] (store.next options schema event)
  misreading : ∀ store failure, failure.IsMisreading → does store [.error failure] store

namespace RunLaw

variable {options : Options} {schema : Schema}
  {does : Store → List (Except Failure Outcome) → Store → Prop}

theorem nextWire (law : RunLaw options schema does) (store : Store) (wire : WireEvent) :
    does store [store.answerWire options schema wire] (store.nextWire options schema wire) := by
  rw [Store.answerWire, Store.nextWire, Store.applyWire]
  cases hread : Event.ofWire wire with
  | error failure => exact law.misreading store failure (Event.isMisreading_of_ofWire hread)
  | ok event => exact law.next store event

theorem applyAll (law : RunLaw options schema does) (store : Store) (events : List Event) :
    does store (store.applyAll options schema events).2
      (store.applyAll options schema events).1 := by
  induction events generalizing store with
  | nil => exact law.nil store
  | cons event rest ih => exact law.append (law.next store event) (ih _)

theorem applyAllWire (law : RunLaw options schema does) (store : Store)
    (events : List WireEvent) :
    does store (store.applyAllWire options schema events).2
      (store.applyAllWire options schema events).1 := by
  induction events generalizing store with
  | nil => exact law.nil store
  | cons wire rest ih =>
      rw [Store.applyAllWire_cons]
      exact law.append (law.nextWire store wire) (ih _)

end RunLaw

/-- What every event keeps true of the store, and what it then allows as its result. -/
structure EventLaw (options : Options) (schema : Schema) (holds : Store → Prop)
    (allows : Except Failure Outcome → Prop) : Prop where
  next : ∀ store event, holds store → holds (store.next options schema event)
  answer : ∀ store event, holds store → allows (store.answer options schema event)
  misreading : ∀ failure : Failure, failure.IsMisreading → allows (.error failure)

/-- What every event keeps true and allows, a run keeps true and allows. -/
theorem EventLaw.runLaw {options : Options} {schema : Schema} {holds : Store → Prop}
    {allows : Except Failure Outcome → Prop} (law : EventLaw options schema holds allows) :
    RunLaw options schema fun before results after =>
      holds before → holds after ∧ ∀ result ∈ results, allows result where
  nil _ h := ⟨h, List.forall_mem_nil _⟩
  append hfront hback h := by
    obtain ⟨hmiddle, hearlier⟩ := hfront h
    obtain ⟨hafter, hlater⟩ := hback hmiddle
    exact ⟨hafter, List.forall_mem_append.mpr ⟨hearlier, hlater⟩⟩
  next store event h :=
    ⟨law.next store event h, List.forall_mem_singleton.mpr (law.answer store event h)⟩
  misreading _ failure hfailure h :=
    ⟨h, List.forall_mem_singleton.mpr (law.misreading failure hfailure)⟩

end PropertyTree
