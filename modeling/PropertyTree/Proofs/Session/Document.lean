import PropertyTree.Proofs.Session.EntryPoints
import PropertyTree.Proofs.Store.AllApart
import PropertyTree.Proofs.Subscription.Steady

/-! # Documents and their leaves

A document comes to the same as its leaves, each sent as a wire event of its own, in any order: to
the same store, results and changes. What subscribers do is the same up to order as well, unless
they subscribe or unsubscribe meanwhile. Delivered once more, a document changes nothing.
-/

namespace PropertyTree

/-- The second step fails where the first did, and does nothing else. -/
structure Step.Repeats (first again : Step Report) : Prop where
  changes : again.result.changes = []
  failures : again.result.failures = first.result.failures
  trace : again.trace = []
  session : again.session = first.session

namespace Session

section Depth

variable (depth : Nat)

/-- The wire events of checked events, applied one by one. -/
def oneByOne (session : Session) (events : List Event) : Step (List (Except Failure Outcome)) :=
  session.performAll depth (events.map fun event => .applyWire event.toWire)

theorem oneByOne_eq (session : Session) (index : Nat) (report : Report) (events : List Event) :
    session.oneByOne depth events =
      let step := session.applyEach depth index report events
      ⟨step.session, (session.store.applyAll session.options session.schema events).2,
        step.trace⟩ := by
  rw [oneByOne]
  induction events generalizing session index report with
  | nil => rfl
  | cons event rest ih =>
      have hfirst := session.applyWire_of_ofWire depth event.ofWire_toWire
      have halike := session.alike_apply depth event
      rw [List.map_cons, performAll, perform, hfirst,
        ih _ (index + 1) (report.record index (session.apply depth event).result)]
      simp only [halike.schema, halike.options, store_apply]
      rw [applyEach, result_apply]
      rfl

section AllApart

variable (session : Session) {events order : List Event} (h : Event.AllApart events)

include h

theorem results_applyAll_of_allApart :
    (session.store.applyAll session.options session.schema events).2 =
      events.map (session.store.answer session.options session.schema) :=
  Store.applyAll_snd_of_allApart h session.store

theorem store_applyEach_of_perm (hperm : order.Perm events) :
    (session.applyEach depth 0 .empty order).session.store =
      (session.applyEach depth 0 .empty events).session.store := by
  rw [(session.applyEach_eq depth 0 .empty order).1,
    (session.applyEach_eq depth 0 .empty events).1]
  exact (Store.after_of_allApart h session.store hperm.symm).symm

theorem told_applyAll_of_perm (hperm : order.Perm events) :
    (Report.told (session.store.applyAll session.options session.schema order).2).Perm
      (Report.told (session.store.applyAll session.options session.schema events).2) := by
  rw [session.results_applyAll_of_allApart (h.perm hperm.symm),
    session.results_applyAll_of_allApart h]
  exact ((hperm.map _).filterMap _).map _

theorem trace_applyEach_of_perm (hperm : order.Perm events)
    (hsteady : ∀ notification ∈
      Report.told (session.store.applyAll session.options session.schema events).2,
      Registry.Steady depth session.registry notification) :
    (session.applyEach depth 0 .empty order).trace.Perm
      (session.applyEach depth 0 .empty events).trace := by
  rw [(session.relays_applyEach depth 0 .empty order).trace,
    (session.relays_applyEach depth 0 .empty events).trace]
  exact (Registry.tell_perm (session.told_applyAll_of_perm h hperm).symm hsteady).symm

/-- The second time, the events fail where they failed and do nothing else. -/
theorem repeats_applyEach :
    (session.applyEach depth 0 .empty events).Repeats
      ((session.applyEach depth 0 .empty events).session.applyEach depth 0 .empty events) := by
  let first := session.applyEach depth 0 .empty events
  let again := first.session.applyEach depth 0 .empty events
  let results := (first.session.store.applyAll first.session.options first.session.schema events).2
  obtain ⟨hfirst, hreport, halike⟩ := session.applyEach_eq depth 0 .empty events
  obtain ⟨hstore, hreport', halike'⟩ := first.session.applyEach_eq depth 0 .empty events
  have hresults : results = events.map
      ((session.store.after session.options session.schema events).answer
        session.options session.schema) := by
    refine (first.session.results_applyAll_of_allApart h).trans ?_
    rw [halike.options, halike.schema, hfirst]
    rfl
  -- No change is reported, so nobody is told and the registry stays as it is.
  have hnone : results.filterMap Report.change? = [] := by
    rw [hresults, List.filterMap_eq_nil_iff, List.forall_mem_map]
    exact fun event hmem => Store.change?_answer_after h session.store hmem
  have hrelays : Relays depth first.session results again.trace again.session :=
    first.session.relays_applyEach depth 0 .empty events
  have htold : Report.told results = [] := congrArg (List.map _) hnone
  have hregistry := hrelays.registry
  have htrace := hrelays.trace
  rw [htold] at hregistry htrace
  refine ⟨?_, ?_, htrace, halike'.eq ?_ hregistry⟩
  · rw [hreport']
    exact Report.changes_ofResults.trans hnone
  · rw [hreport, hreport']
    apply Report.failures_congr
    rw [session.results_applyAll_of_allApart h, List.map_map]
    refine (congrArg (List.map Report.failure?) hresults).trans ?_
    rw [List.map_map]
    exact List.map_congr_left fun event hmem => Store.failure?_answer_after h session.store hmem
  · rw [hstore, halike.options, halike.schema, hfirst]
    exact Store.after_after_of_allApart h session.store

end AllApart

/-- The events, one by one in another order, come to the same as the whole. -/
structure Reorders (session : Session) (events order : List Event) (whole : Step Report) :
    Prop where
  store : (session.oneByOne depth order).session.store = whole.session.store
  /-- Each event has one result, wherever it stands. -/
  results : ∃ resultOf, whole.result.results = events.map resultOf ∧
    (session.oneByOne depth order).result = order.map resultOf
  /-- The same changes are told. -/
  told : (Report.told (session.oneByOne depth order).result).Perm (Report.told whole.result.results)
  /-- Subscribers do the same, as long as they leave the subscriptions alone. -/
  trace : (∀ notification ∈ Report.told whole.result.results,
      Registry.Steady depth session.registry notification) →
    (session.oneByOne depth order).trace.Perm whole.trace

theorem reorders_applyEach (session : Session) {events order : List Event}
    (h : Event.AllApart events) (hperm : order.Perm events) :
    session.Reorders depth events order (session.applyEach depth 0 .empty events) := by
  have hreport : (session.applyEach depth 0 .empty events).result.results =
      (session.store.applyAll session.options session.schema events).2 := by
    rw [(session.applyEach_eq depth 0 .empty events).2.1]
    exact Report.results_ofResults _
  constructor
  · rw [oneByOne_eq depth session 0 .empty]
    exact session.store_applyEach_of_perm depth h hperm
  · rw [oneByOne_eq depth session 0 .empty, hreport]
    exact ⟨_, session.results_applyAll_of_allApart h,
      session.results_applyAll_of_allApart (h.perm hperm.symm)⟩
  · rw [oneByOne_eq depth session 0 .empty, hreport]
    exact session.told_applyAll_of_perm h hperm
  · rw [oneByOne_eq depth session 0 .empty, hreport]
    exact session.trace_applyEach_of_perm depth h hperm

/-- A document fares as its leaves do in any order, and delivered once more it does nothing. One
that does not expand does nothing at all. -/
theorem document_fares_as_leaves (session : Session) {members : List (String × Json)}
    (hordered : (Json.object members).Ordered) (outer : Option Version) :
    let document := WireEvent.set Document.key (some (.object members)) outer
    match Event.expand document with
    | .error failure => session.applyDocument depth document = ⟨session, .error failure, []⟩
    | .ok events =>
        ∃ whole again : Step Report,
          session.applyDocument depth document = ⟨whole.session, .ok whole.result, whole.trace⟩ ∧
          (∀ event ∈ events, event.kind = .set) ∧
          (∀ order, order.Perm events → session.Reorders depth events order whole) ∧
          whole.session.applyDocument depth document =
            ⟨again.session, .ok again.result, again.trace⟩ ∧
          whole.Repeats again := by
  intro document
  cases hexpand : Event.expand document with
  | error failure =>
      simp only [applyDocument, hexpand]
  | ok events =>
      have hdocument : Document.events members outer = .ok events := hexpand
      have hspread := Document.spread_events hordered hdocument
      let whole := session.applyEach depth 0 .empty events
      refine ⟨whole, whole.session.applyEach depth 0 .empty events, ?_, hspread.kind,
        fun order hperm => session.reorders_applyEach depth hspread.apart hperm, ?_,
        session.repeats_applyEach depth hspread.apart⟩
      · rw [applyDocument, hexpand]
      · rw [applyDocument, hexpand]

end Depth

/-- A document that turns the lamp on, at full brightness. -/
def lampDocument : List (String × Json) :=
  [("lamp", .object [("dim", .bool true), ("on", .bool true)])]

/-- The leaves of the document. -/
def lampLeaves : List Event :=
  [.set .lampDim (.bool true) none, .set .lampOn (.bool true) none]

theorem ordered_lampDocument : (Json.object lampDocument).Ordered := by
  simp only [lampDocument, Json.Ordered, Json.OrderedMembers, Keyed.Ordered,
    List.pairwise_singleton, List.pairwise_pair]
  decide

theorem expand_lampDocument :
    Event.expand (.set Document.key (some (.object lampDocument)) none) = .ok lampLeaves := rfl

/-- Whom a script unsubscribes hears of the document only what comes before. -/
theorem not_heard_perm_of_unsubscribe :
    ¬ ∀ (session : Session) (depth : Nat) (members : List (String × Json)) (outer : Option Version)
      (events order : List Event) (handle : Nat), session.Reachable →
      (Json.object members).Ordered →
      Event.expand (.set Document.key (some (.object members)) outer) = .ok events →
      order.Perm events →
      let whole := session.applyDocument depth (.set Document.key (some (.object members)) outer)
      (Registry.heard handle (session.oneByOne depth order).trace).Perm
        (Registry.heard handle whole.trace) := by
  intro hheard
  have hperm := hheard (watchedLamp fun _ => [.unsubscribe 0]) 0 lampDocument none lampLeaves
    lampLeaves.reverse 0 (reachable_watchedLamp _) ordered_lampDocument expand_lampDocument
    (List.reverse_perm _)
  exact absurd hperm.length_eq (by decide +kernel)

theorem document_fares_as_leaves_lamp :
    let document := WireEvent.set Document.key (some (.object lampDocument)) none
    let session := watchedLamp fun _ => [.count]
    (Json.object lampDocument).Ordered ∧ Event.expand document = .ok lampLeaves ∧
      lampLeaves.reverse.Perm lampLeaves ∧
      (∀ notification, Registry.Steady 0 session.registry notification) ∧
      ∃ whole again : Step Report,
        session.applyDocument 0 document = ⟨whole.session, .ok whole.result, whole.trace⟩ ∧
        session.Reorders 0 lampLeaves lampLeaves.reverse whole ∧
        (session.oneByOne 0 lampLeaves.reverse).trace.Perm whole.trace ∧ whole.Repeats again := by
  intro document session
  have hperm : lampLeaves.reverse.Perm lampLeaves := List.reverse_perm _
  have hsteady : ∀ notification, Registry.Steady 0 session.registry notification :=
    Registry.steady_of_isQuiet (onlyRuns_watchedLamp (by simp) (by simp [Action.isQuiet]))
  have hdocument := document_fares_as_leaves 0 session ordered_lampDocument none
  simp only [expand_lampDocument] at hdocument
  obtain ⟨whole, again, hwhole, _, horders, _, hagain⟩ := hdocument
  have hreverse := horders lampLeaves.reverse hperm
  exact ⟨ordered_lampDocument, expand_lampDocument, hperm, hsteady, whole, again, hwhole, hreverse,
    hreverse.trace fun notification _ => hsteady notification, hagain⟩

end Session

end PropertyTree
