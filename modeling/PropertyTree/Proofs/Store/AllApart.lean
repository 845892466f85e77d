import PropertyTree.Proofs.Event.Expansion
import PropertyTree.Proofs.Store.Convergence
import PropertyTree.Proofs.Store.Positions

/-! # Runs at paths apart

Events at paths of which none leads to another cannot get in each other's way, whatever the schema
declares. Each has the result that it has by itself, all orders end in one store, and a run that is
delivered once more at once does nothing: what failed fails again, and the rest is no change.
-/

namespace PropertyTree

variable {options : Options} {schema : Schema}

/-- Once more at the leaf that it left behind, an event changes nothing. -/
theorem Event.change?_revise_again (event : Event) (held : Option Leaf) :
    (event.revise (event.revise held).1).2.change? = none := by
  cases event with
  | set path value version =>
      -- A set is refused as before, or finds its own value.
      have hown : ∀ leaf : Leaf, leaf.value = value →
          ((Event.set path value version).revise (some leaf)).2.change? = none := by
        intro leaf hvalue
        cases hrefusal : leaf.refusal? version with
        | some reason =>
            rw [revise_of_refusal hrefusal]
            rfl
        | none =>
            rw [revise_of_accepted hrefusal]
            simp only [hvalue, if_true]
            rfl
      cases held with
      | none => exact hown ⟨value, version⟩ rfl
      | some leaf =>
          cases hrefusal : leaf.refusal? version with
          | some reason =>
              rw [revise_of_refusal hrefusal, revise_of_refusal hrefusal]
              rfl
          | none =>
              rw [revise_of_accepted hrefusal]
              exact hown _ rfl
  | delete path => cases held <;> rfl

namespace Slot

variable {event : Event}

/-- Once more at the slot that it left behind, an event changes nothing. -/
theorem change?_answer_advance (slot : Slot) :
    Report.change? ((slot.advance options schema event).answer options schema event) = none := by
  rw [answer]
  cases hcheck : event.check options schema with
  | error failure => rfl
  | ok _ =>
      have hadmitted := Event.isAdmitted_iff.mpr hcheck
      cases slot with
      | free held =>
          rw [advance, Event.advance_of_admitted hadmitted]
          exact event.change?_revise_again held
      | blocked _ | branch _ => cases event <;> rfl

/-- An event fails once more as it failed. -/
theorem failure?_answer_advance (slot : Slot) :
    Report.failure? ((slot.advance options schema event).answer options schema event) =
      Report.failure? (slot.answer options schema event) := by
  rw [answer, answer]
  cases event.check options schema with
  | error failure => rfl
  | ok _ =>
      cases slot with
      | free held | blocked _ | branch _ => rfl

end Slot

namespace Store

variable {events : List Event} {event : Event}

theorem after_of_next_eq {store : Store}
    (h : ∀ event ∈ events, store.next options schema event = store) :
    store.after options schema events = store := by
  induction events with
  | nil => rfl
  | cons event rest ih =>
      obtain ⟨hevent, hrest⟩ := List.forall_mem_cons.mp h
      rw [after_cons, hevent, ih hrest]

theorem slot_after_of_apart {path : Path} (h : ∀ event ∈ events, event.path.Apart path)
    (store : Store) : (store.after options schema events).slot path = store.slot path := by
  induction events generalizing store with
  | nil => rfl
  | cons event rest ih =>
      obtain ⟨hevent, hrest⟩ := List.forall_mem_cons.mp h
      rw [after_cons, ih hrest, slot_next_of_apart options schema store hevent]

section AllApart

variable (h : Event.AllApart events) (store : Store)

include h

/-- Each event of the run has to do with its own slot alone. -/
theorem slot_after_of_mem (hmem : event ∈ events) :
    (store.after options schema events).slot event.path =
      (store.slot event.path).advance options schema event := by
  induction events generalizing store with
  | nil => cases hmem
  | cons first rest ih =>
      obtain ⟨hfirst, hrest⟩ := List.pairwise_cons.mp h
      rw [after_cons]
      -- The event is alone at its slot: what comes after it and what comes before it lie apart.
      rcases List.mem_cons.mp hmem with rfl | hthere
      · rw [slot_after_of_apart fun other hother => (hfirst other hother).symm]
        exact slot_next_self options schema store event
      · rw [ih hrest _ hthere, slot_next_of_apart options schema store (hfirst event hthere)]

/-- Each event of the run has the result that it has by itself. -/
theorem applyAll_snd_of_allApart :
    (store.applyAll options schema events).2 =
      events.map (store.answer options schema) := by
  induction events generalizing store with
  | nil => rfl
  | cons event rest ih =>
      obtain ⟨hevent, hrest⟩ := List.pairwise_cons.mp h
      have hothers : rest.map ((store.next options schema event).answer options schema) =
          rest.map (store.answer options schema) := by
        refine List.map_congr_left fun other hother => ?_
        rw [answer_eq, answer_eq, slot_next_of_apart options schema store (hevent other hother)]
      rw [List.map_cons, ← hothers, ← ih hrest]
      rfl

/-- All orders of the run end in one store. -/
theorem after_of_allApart {order : List Event} (hperm : events.Perm order) :
    store.after options schema events = store.after options schema order := by
  induction hperm generalizing store with
  | nil => rfl
  | cons event _ ih => rw [after_cons, after_cons, ih (List.pairwise_cons.mp h).2]
  | swap first second rest =>
      have hapart : second.path.Apart first.path :=
        (List.pairwise_cons.mp h).1 first List.mem_cons_self
      simp only [after_cons, next_comm_of_apart options schema store hapart]
  | trans hleft _ ih ih' => rw [ih h, ih' (h.perm hleft)]

/-- The run does nothing the second time. -/
theorem after_after_of_allApart :
    (store.after options schema events).after options schema events =
      store.after options schema events :=
  after_of_next_eq fun _ hmem => next_of_slot_eq_advance (slot_after_of_mem h store hmem)

/-- The second time, no event of the run reports a change. -/
theorem change?_answer_after (hmem : event ∈ events) :
    Report.change? ((store.after options schema events).answer options schema event) = none := by
  rw [answer_eq, slot_after_of_mem h store hmem]
  exact Slot.change?_answer_advance _

/-- The second time, the same events of the run fail in the same way. -/
theorem failure?_answer_after (hmem : event ∈ events) :
    Report.failure? ((store.after options schema events).answer options schema event) =
      Report.failure? (store.answer options schema event) := by
  rw [answer_eq, answer_eq, slot_after_of_mem h store hmem]
  exact Slot.failure?_answer_advance _

end AllApart

end Store

end PropertyTree
