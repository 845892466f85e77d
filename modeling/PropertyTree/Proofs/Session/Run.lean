import PropertyTree.Proofs.Schema.Defaults
import PropertyTree.Proofs.Store.Run
import PropertyTree.Session

/-! # Runs of a session

A session is fed by five operations. Each of them but the load is a run of events on the store, and
none changes the schema or the options; what subscribers do meanwhile concerns the registry alone.
A run of a session also keeps what the last snapshot brought in, whatever has become of it since.
-/

namespace PropertyTree

namespace Session

/-- The ways to feed a session. -/
inductive Operation where
  | load (members : List (String × Json))
  | apply (event : Event)
  | applyWire (event : WireEvent)
  | applyBatch (events : List WireEvent)
  | applyDocument (event : WireEvent)

section Perform

variable (depth : Nat)

/-- The session after an operation, the results of the events in it, and what the subscribers did
meanwhile. A snapshot has no events, and a document that does not expand counts as one. -/
def perform (session : Session) : Operation → Step (List (Except Failure Outcome))
  | .load members =>
    let step := session.bulkLoad members
    ⟨step.session, [], step.trace⟩
  | .apply event =>
    let step := session.apply depth event
    ⟨step.session, [step.result], step.trace⟩
  | .applyWire event =>
    let step := session.applyWire depth event
    ⟨step.session, [step.result], step.trace⟩
  | .applyBatch events =>
    let step := session.applyBatch depth events
    ⟨step.session, step.result.results, step.trace⟩
  | .applyDocument event =>
    let step := session.applyDocument depth event
    match step.result with
    | .ok report => ⟨step.session, report.results, step.trace⟩
    | .error failure => ⟨step.session, [.error failure], step.trace⟩

end Perform

/-- Another session of the same schema under the same options. -/
structure Alike (left right : Session) : Prop where
  schema : left.schema = right.schema
  options : left.options = right.options
  validateSnapshot : left.validateSnapshot = right.validateSnapshot

namespace Alike

variable {first second third : Session}

theorem refl (session : Session) : Alike session session := ⟨rfl, rfl, rfl⟩

theorem symm (h : Alike first second) : Alike second first :=
  ⟨h.schema.symm, h.options.symm, h.validateSnapshot.symm⟩

theorem trans (hfirst : Alike first second) (hsecond : Alike second third) : Alike first third :=
  ⟨hfirst.schema.trans hsecond.schema, hfirst.options.trans hsecond.options,
    hfirst.validateSnapshot.trans hsecond.validateSnapshot⟩

end Alike

section Settle

variable (depth : Nat) (session : Session) (attempt : Except Failure (Store × Outcome))

/-- The store settles the attempt, and a change is relayed. -/
theorem settle_eq :
    session.settle depth attempt =
      let settled := session.store.settle attempt
      let told := (Report.change? settled.2).toList.foldl (relay depth) (session.registry, [])
      ⟨{ session with store := settled.1, registry := told.1 }, settled.2, told.2⟩ := by
  rw [settle]
  rcases session.store.settle attempt with ⟨store, failure | (change | reason)⟩ <;> rfl

theorem store_settle : (session.settle depth attempt).session.store =
    (session.store.settle attempt).1 := by
  rw [settle_eq]

theorem result_settle : (session.settle depth attempt).result =
    (session.store.settle attempt).2 := by
  rw [settle_eq]

theorem alike_settle : Alike (session.settle depth attempt).session session := by
  rw [settle_eq]
  exact ⟨rfl, rfl, rfl⟩

end Settle

section Events

variable (depth : Nat) (session : Session)

theorem store_apply (event : Event) :
    (session.apply depth event).session.store =
      session.store.next session.options session.schema event :=
  store_settle depth session _

theorem result_apply (event : Event) :
    (session.apply depth event).result =
      session.store.answer session.options session.schema event :=
  result_settle depth session _

theorem alike_apply (event : Event) : Alike (session.apply depth event).session session :=
  alike_settle depth session _

theorem store_applyWire (event : WireEvent) :
    (session.applyWire depth event).session.store =
      session.store.nextWire session.options session.schema event :=
  store_settle depth session _

theorem result_applyWire (event : WireEvent) :
    (session.applyWire depth event).result =
      session.store.answerWire session.options session.schema event :=
  result_settle depth session _

theorem alike_applyWire (event : WireEvent) :
    Alike (session.applyWire depth event).session session :=
  alike_settle depth session _

/-- A batch runs on the store, and its report is that of the results. -/
theorem applyBatch_eq (events : List WireEvent) :
    session.applyBatch depth events =
      let run := session.store.applyAllWire session.options session.schema events
      let told := (run.2.filterMap Report.change?).foldl (relay depth) (session.registry, [])
      ⟨{ session with store := run.1, registry := told.1 }, .ofResults run.2, told.2⟩ := by
  rw [applyBatch, Store.applyBatch_eq]

/-- Events that are told one by one run on the store as a list. -/
theorem applyEach_eq (index : Nat) (report : Report) (events : List Event) :
    let step := session.applyEach depth index report events
    let run := session.store.applyAll session.options session.schema events
    step.session.store = run.1 ∧ step.result = report.recordAll index run.2 ∧
      Alike step.session session := by
  induction events generalizing session index report with
  | nil => exact ⟨rfl, rfl, .refl session⟩
  | cons event rest ih =>
      have halike := session.alike_apply depth event
      obtain ⟨hstore, hresult, hrest⟩ := ih (session.apply depth event).session (index + 1)
        (report.record index (session.apply depth event).result)
      rw [halike.schema, halike.options, store_apply, result_apply] at hresult
      rw [halike.schema, halike.options, store_apply] at hstore
      refine ⟨?_, ?_, hrest.trans halike⟩
      · rw [applyEach]
        exact hstore
      · rw [applyEach, result_apply]
        exact hresult

end Events

/-- The first leaf that does not fit decides the check. -/
theorem failure?_checkLeaves (schema : Schema) (leaves : List (Path × Leaf)) :
    failure? (checkLeaves schema leaves) =
      leaves.findSome? fun entry => schema.misfit? entry.1 entry.2.value := by
  induction leaves with
  | nil => rfl
  | cons entry rest ih =>
      obtain ⟨path, leaf⟩ := entry
      rw [checkLeaves, List.findSome?_cons, ← ih, Schema.misfit?, Schema.declares]
      cases hget : schema.get? path with
      | none => rfl
      | some descriptor =>
          rw [Schema.check_of_get?_some hget]
          by_cases haccepts : descriptor.kind.accepts leaf.value = true
          · simp [haccepts]
          · simp [haccepts, failure?]

theorem checkLeaves_eq_ok_iff {schema : Schema} {leaves : List (Path × Leaf)} :
    checkLeaves schema leaves = .ok () ↔ ∀ entry ∈ leaves, schema.Fits entry.1 entry.2.value := by
  have hok : checkLeaves schema leaves = .ok () ↔ ∃ a, checkLeaves schema leaves = .ok a :=
    ⟨fun h => ⟨(), h⟩, fun ⟨_, h⟩ => h⟩
  rw [hok, ← failure?_eq_none_iff, failure?_checkLeaves, List.findSome?_eq_none_iff]
  simp only [Schema.misfit?_eq_none_iff]

theorem checkStaged_eq_ok_iff {session : Session} {staged : Store} :
    session.checkStaged staged = .ok () ↔
      (session.validateSnapshot = true → checkLeaves session.schema staged.leaves = .ok ()) := by
  by_cases hvalidate : session.validateSnapshot = true <;> simp [checkStaged, hvalidate]

theorem checkStaged_eq_error_iff {session : Session} {staged : Store} {error : SnapshotError} :
    session.checkStaged staged = .error error ↔ session.validateSnapshot = true ∧
      checkLeaves session.schema staged.leaves = .error error := by
  by_cases hvalidate : session.validateSnapshot = true <;> simp [checkStaged, hvalidate]

/-- A snapshot comes to the store that it describes, and this is what the check is about. -/
theorem bulkLoad_eq (session : Session) (members : List (String × Json)) :
    session.bulkLoad members =
      match Store.ofSnapshot members with
      | .error error => ⟨session, .error error, []⟩
      | .ok staged =>
        match session.checkStaged staged with
        | .error error => ⟨session, .error error, []⟩
        | .ok () => ⟨{ session with store := staged }, .ok staged.leafCount, []⟩ := by
  rw [bulkLoad, Store.bulkLoad]
  cases Store.ofSnapshot members <;> rfl

/-- What a load leaves behind: the old session under an error, or else that of a store which the
snapshot describes and whose leaves pass the check, where there is one. Nobody is told. -/
theorem bulkLoad_cases (session : Session) (members : List (String × Json)) :
    (∃ error, session.bulkLoad members = ⟨session, .error error, []⟩) ∨
      ∃ staged, Store.ofSnapshot members = .ok staged ∧
        (session.validateSnapshot = true →
          checkLeaves session.schema staged.leaves = .ok ()) ∧
        session.bulkLoad members =
          ⟨{ session with store := staged }, .ok staged.leafCount, []⟩ := by
  rw [bulkLoad_eq]
  split
  next error _ => exact Or.inl ⟨error, rfl⟩
  next staged hstaged =>
    split
    next error _ => exact Or.inl ⟨error, rfl⟩
    next hcheck => exact Or.inr ⟨staged, hstaged, checkStaged_eq_ok_iff.mp hcheck, rfl⟩

theorem bulkLoad_of_ok {session : Session} {members : List (String × Json)} {count : Nat}
    (h : (session.bulkLoad members).result = .ok count) :
    ∃ staged, Store.ofSnapshot members = .ok staged ∧
      (session.validateSnapshot = true → checkLeaves session.schema staged.leaves = .ok ()) ∧
      (session.bulkLoad members).session = { session with store := staged } ∧
      staged.leafCount = count := by
  rcases session.bulkLoad_cases members with ⟨error, hload⟩ | ⟨staged, hstaged, hcheck, hload⟩
  · rw [hload] at h
    cases h
  · rw [hload] at h ⊢
    cases h
    exact ⟨staged, hstaged, hcheck, rfl, rfl⟩

theorem session_bulkLoad_of_error {session : Session} {members : List (String × Json)}
    {error : SnapshotError} (h : (session.bulkLoad members).result = .error error) :
    (session.bulkLoad members).session = session := by
  rcases session.bulkLoad_cases members with ⟨_, hload⟩ | ⟨_, _, _, hload⟩
  · rw [hload]
  · rw [hload] at h
    cases h

theorem alike_bulkLoad (session : Session) (members : List (String × Json)) :
    Alike (session.bulkLoad members).session session := by
  rcases session.bulkLoad_cases members with ⟨_, hload⟩ | ⟨_, _, _, hload⟩
  · rw [hload]
    exact .refl session
  · rw [hload]
    exact ⟨rfl, rfl, rfl⟩

section Perform

variable (depth : Nat)

/-- What became of the events of a document. -/
theorem perform_applyDocument (session : Session) (event : WireEvent) :
    session.perform depth (.applyDocument event) =
      match Event.expand event with
      | .error failure => ⟨session, [.error failure], []⟩
      | .ok events =>
        let step := session.applyEach depth 0 .empty events
        ⟨step.session, (session.store.applyAll session.options session.schema events).2,
          step.trace⟩ := by
  rw [perform, applyDocument]
  cases Event.expand event with
  | error failure => rfl
  | ok events =>
      have hresult : (session.applyEach depth 0 .empty events).result =
          .ofResults (session.store.applyAll session.options session.schema events).2 :=
        (session.applyEach_eq depth 0 .empty events).2.1
      simp only [hresult, Report.results_ofResults]

theorem alike_perform (session : Session) (operation : Operation) :
    Alike (session.perform depth operation).session session := by
  cases operation with
  | load members => exact session.alike_bulkLoad members
  | apply event => exact session.alike_apply depth event
  | applyWire event => exact session.alike_applyWire depth event
  | applyBatch events => exact ⟨rfl, rfl, rfl⟩
  | applyDocument event =>
      rw [perform_applyDocument]
      split
      next => exact .refl session
      next events _ => exact (session.applyEach_eq depth 0 .empty events).2.2

/-- The contents that an operation loads, if it is a load that succeeds. -/
def loaded? (session : Session) : Operation → Option Store
  | .load members =>
    let step := session.bulkLoad members
    match step.result with
    | .ok _ => some step.session.store
    | .error _ => none
  | .apply _ | .applyWire _ | .applyBatch _ | .applyDocument _ => none

/-- The contents of a load are described by its snapshot and pass the check, where there is one. -/
theorem ofSnapshot_of_loaded? {session : Session} {members : List (String × Json)}
    {contents : Store} (h : session.loaded? (.load members) = some contents) :
    Store.ofSnapshot members = .ok contents ∧
      (session.validateSnapshot = true →
        checkLeaves session.schema contents.leaves = .ok ()) := by
  rw [loaded?] at h
  rcases session.bulkLoad_cases members with ⟨error, hload⟩ | ⟨staged, hstaged, hcheck, hload⟩
  · rw [hload] at h
    cases h
  · rw [hload] at h
    cases h
    exact ⟨hstaged, hcheck⟩

/-- What a successful load brings in is what the store then is. -/
theorem store_perform_of_loaded? {session : Session} {operation : Operation} {contents : Store}
    (h : session.loaded? operation = some contents) :
    (session.perform depth operation).session.store = contents := by
  cases operation with
  | load members =>
      rw [loaded?] at h
      rw [perform]
      split at h
      next =>
        cases h
        rfl
      next => cases h
  | apply _ | applyWire _ | applyBatch _ | applyDocument _ => cases h

/-- What every event does to the store, every operation does that loads nothing. -/
theorem perform_of_runLaw {session : Session}
    {does : Store → List (Except Failure Outcome) → Store → Prop}
    (law : RunLaw session.options session.schema does) {operation : Operation}
    (hload : session.loaded? operation = none) :
    does session.store (session.perform depth operation).result
      (session.perform depth operation).session.store := by
  cases operation with
  | load members =>
      rw [loaded?] at hload
      rw [perform]
      cases hresult : (session.bulkLoad members).result with
      | ok count => simp [hresult] at hload
      | error error =>
          rw [session_bulkLoad_of_error hresult]
          exact law.nil session.store
  | apply event =>
      simp only [perform, store_apply, result_apply]
      exact law.next session.store event
  | applyWire event =>
      simp only [perform, store_applyWire, result_applyWire]
      exact law.nextWire session.store event
  | applyBatch events =>
      simp only [perform, applyBatch_eq, Report.results_ofResults]
      exact law.applyAllWire session.store events
  | applyDocument event =>
      rw [perform_applyDocument]
      cases hexpand : Event.expand event with
      | error failure =>
          exact law.misreading session.store failure (Event.isMisreading_of_expand hexpand)
      | ok events =>
          simp only [(session.applyEach_eq depth 0 .empty events).1]
          exact law.applyAll session.store events

/-- An operation that loads has no events. -/
theorem results_of_loaded? {session : Session} {operation : Operation} {contents : Store}
    (h : session.loaded? operation = some contents) :
    (session.perform depth operation).result = [] := by
  cases operation with
  | load members => rfl
  | apply _ | applyWire _ | applyBatch _ | applyDocument _ => cases h

/-- What every event upholds, every operation does; a load brings in a store of its own. -/
theorem perform_of_law {session : Session} {holds : Store → Prop}
    {allows : Except Failure Outcome → Prop}
    (law : EventLaw session.options session.schema holds allows) (h : holds session.store)
    (operation : Operation) :
    (session.loaded? operation = none →
        holds (session.perform depth operation).session.store) ∧
      ∀ result ∈ (session.perform depth operation).result, allows result := by
  cases hload : session.loaded? operation with
  | none =>
      obtain ⟨hafter, hresults⟩ := perform_of_runLaw depth law.runLaw hload h
      exact ⟨fun _ => hafter, hresults⟩
  | some contents =>
      rw [results_of_loaded? depth hload]
      exact ⟨nofun, List.forall_mem_nil _⟩

end Perform

/-- A session on its way, with what the last snapshot brought in. -/
structure Progress where
  session : Session
  loaded : Store

/-- A session before its first operation. -/
def start (session : Session) : Progress := ⟨session, session.store⟩

namespace Progress

variable (depth : Nat)

/-- The progress after an operation. -/
def next (progress : Progress) (operation : Operation) : Progress :=
  ⟨(progress.session.perform depth operation).session,
    (progress.session.loaded? operation).getD progress.loaded⟩

/-- The progress after a run. -/
def after (progress : Progress) (operations : List Operation) : Progress :=
  operations.foldl (next depth) progress

/-- What holds at first and is kept by each operation holds all along. -/
theorem after_of_next {holds : Progress → Prop}
    (hnext : ∀ progress operation, holds progress → holds (progress.next depth operation))
    {progress : Progress} (h : holds progress) (operations : List Operation) :
    holds (progress.after depth operations) := by
  induction operations generalizing progress with
  | nil => exact h
  | cons operation rest ih => exact ih (hnext progress operation h)

/-- What holds of the store at first, is kept by every event and comes with every load holds of the
store all along. -/
theorem store_after_of_law {origin : Session} {holds : Store → Prop}
    {allows : Except Failure Outcome → Prop}
    (law : EventLaw origin.options origin.schema holds allows)
    (hload : ∀ session operation contents, Alike session origin →
      session.loaded? operation = some contents → holds contents)
    {progress : Progress} (halike : Alike progress.session origin)
    (h : holds progress.session.store) (operations : List Operation) :
    Alike (progress.after depth operations).session origin ∧
      holds (progress.after depth operations).session.store := by
  have hnext : ∀ (progress : Progress) (operation : Operation),
      Alike progress.session origin ∧ holds progress.session.store →
      Alike (progress.next depth operation).session origin ∧
        holds (progress.next depth operation).session.store := by
    rintro progress operation ⟨halike, h⟩
    refine ⟨(progress.session.alike_perform depth operation).trans halike, ?_⟩
    cases hloaded : progress.session.loaded? operation with
    | none =>
        rw [← halike.schema, ← halike.options] at law
        exact (perform_of_law depth law h operation).1 hloaded
    | some contents =>
        rw [next, store_perform_of_loaded? depth hloaded]
        exact hload _ operation contents halike hloaded
  exact after_of_next depth hnext ⟨halike, h⟩ operations

end Progress

end Session

end PropertyTree
