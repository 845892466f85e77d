import PropertyTree.Proofs.Except
import PropertyTree.Proofs.Store.Slot

/-! # Events as revisions of one leaf

An event that passes its checks makes one held leaf out of another, and its outcome tells how. The
store adds nothing to this: `Store.answer_eq` and `Store.layout_next` give the result of an event
and the store after it from the slot at its path.
-/

namespace PropertyTree

variable (options : Options) (schema : Schema)

namespace Event

/-- The checks of an event that need no store. -/
def check : Event → Except Failure Unit
  | .set path value version => do
      (schema.check path value).mapError Failure.schema
      if version.isNone && options.rejectUnversioned then
        .error (.write (.unversionedWrite path.dotted))
      else .ok ()
  | .delete path => do
      let _ ← (schema.lookup path).mapError Failure.schema
      .ok ()

/-- The event passes its checks. -/
def isAdmitted (event : Event) : Bool :=
  match event.check options schema with
  | .ok () => true
  | .error _ => false

/-- The leaf that an admitted event makes of the one held, and what the event comes to. -/
def revise : Event → Option Leaf → Option Leaf × Outcome
  | .set path value version, none =>
      (some ⟨value, version⟩, .applied ⟨path, none, some value, version⟩)
  | .set path value version, some held =>
      match held.refusal? version with
      | some reason => (some held, .noOp reason)
      | none =>
          (some ⟨value, held.nextVersion version⟩,
            if held.value = value then .noOp .unchanged
            else .applied ⟨path, some held.value, some value, held.nextVersion version⟩)
  | .delete _, none => (none, .noOp .absent)
  | .delete path, some held => (none, .applied ⟨path, some held.value, none, none⟩)

/-- The leaf held after an event, admitted or not. -/
def advance (event : Event) (held : Option Leaf) : Option Leaf :=
  if event.isAdmitted options schema then (event.revise held).1 else held

variable {path : Path} {value : Value} {version : Option Version} {held : Leaf}

theorem revise_of_refusal {reason : NoOp} (h : held.refusal? version = some reason) :
    (Event.set path value version).revise (some held) = (some held, .noOp reason) := by
  rw [revise, h]

theorem revise_of_accepted (h : held.refusal? version = none) :
    (Event.set path value version).revise (some held) =
      (some ⟨value, held.nextVersion version⟩,
        if held.value = value then .noOp .unchanged
        else .applied ⟨path, some held.value, some value, held.nextVersion version⟩) := by
  rw [revise, h]

variable {options schema} {event : Event}

theorem isAdmitted_iff : event.isAdmitted options schema = true ↔
    event.check options schema = .ok () := by
  rw [isAdmitted]
  cases event.check options schema <;> simp

theorem advance_of_admitted (h : event.isAdmitted options schema = true) (held : Option Leaf) :
    event.advance options schema held = (event.revise held).1 := by
  rw [advance, if_pos h]

theorem advance_of_not_admitted (h : ¬ event.isAdmitted options schema = true)
    (held : Option Leaf) : event.advance options schema held = held := by
  rw [advance, if_neg h]

end Event

namespace Slot

/-- What an admitted event comes to at a slot. -/
def reply (event : Event) : Slot → Except Failure Outcome
  | .free held => .ok (event.revise held).2
  | .blocked blocking =>
      match event with
      | .set path _ _ => .error (.write (.pathConflict path.dotted blocking.dotted))
      | .delete _ => .ok (.noOp .absent)
  | .branch leaves =>
      match event with
      | .set path _ _ => .error (.write (.branchConflict path.dotted leaves))
      | .delete _ => .ok (.noOp .absent)

/-- What an event comes to at a slot. -/
def answer (event : Event) (slot : Slot) : Except Failure Outcome := do
  event.check options schema
  slot.reply event

/-- The slot after an event at its path. -/
def advance (event : Event) : Slot → Slot
  | .free held => .free (event.advance options schema held)
  | .blocked blocking => .blocked blocking
  | .branch leaves => .branch leaves

end Slot

namespace Store

/-- The store after an event, accepted or not. -/
def next (store : Store) (event : Event) : Store :=
  (store.settle (store.apply options schema event)).1

/-- The result of an event. -/
def answer (store : Store) (event : Event) : Except Failure Outcome :=
  (store.settle (store.apply options schema event)).2

variable {options schema}

theorem apply_of_check_error {event : Event} {failure : Failure}
    (hcheck : event.check options schema = .error failure) (store : Store) :
    store.apply options schema event = .error failure := by
  cases event with
  | set path value version =>
      rw [apply, set, bind_eq_error_iff]
      rcases bind_eq_error_iff.mp hcheck with hschema | ⟨_, hschema, hversion⟩
      · exact Or.inl hschema
      · split at hversion
        next hmissing =>
          cases hversion
          exact Or.inr ⟨(), hschema, if_pos hmissing⟩
        next => cases hversion
  | delete path =>
      rw [apply, delete, bind_eq_error_iff]
      rcases bind_eq_error_iff.mp hcheck with hschema | ⟨_, _, hok⟩
      · exact Or.inl hschema
      · cases hok

/-- An admitted set is decided by the leaf that its path holds. -/
theorem apply_set_of_check {path : Path} {value : Value} {version : Option Version}
    (hcheck : (Event.set path value version).check options schema = .ok ()) (store : Store) :
    store.apply options schema (.set path value version) =
      match store.leaf? path with
      | none => store.change path ⟨value, version⟩
      | some held =>
          match held.refusal? version with
          | some reason => .ok (store, .noOp reason)
          | none =>
              if held.value = value then
                if held.version = held.nextVersion version then .ok (store, .noOp .unchanged)
                else (store.put path ⟨value, held.nextVersion version⟩).map
                  fun (after, _) => (after, .noOp .unchanged)
              else store.change path ⟨value, held.nextVersion version⟩ := by
  obtain ⟨_, hschema, hversion⟩ := bind_eq_ok_iff.mp hcheck
  rw [apply, set, hschema]
  split at hversion
  next => cases hversion
  next hgiven =>
    refine (if_neg hgiven).trans ?_
    cases store.leaf? path with
    | none => rfl
    | some held =>
        simp only
        cases held.refusal? version with
        | some reason => rfl
        | none => rfl

theorem change_of_write_error {store : Store} {path : Path} {leaf : Leaf} {error : WriteError}
    (hwrite : store.write path leaf = .error error) :
    store.change path leaf = .error (.write error) := by
  rw [change, put, hwrite]
  rfl

theorem apply_delete_of_check {path : Path}
    (hcheck : (Event.delete path).check options schema = .ok ()) (store : Store) :
    store.apply options schema (.delete path) =
      match store.erase? path with
      | none => .ok (store, .noOp .absent)
      | some (held, after) => .ok (after, .applied ⟨path, some held.value, none, none⟩) := by
  obtain ⟨_, hschema, _⟩ := bind_eq_ok_iff.mp hcheck
  rw [apply, delete, hschema]
  rfl

/-- Where its slot is not free, an admitted event leaves the store as it is. -/
theorem apply_of_not_free {store : Store} {event : Event}
    (hcheck : event.check options schema = .ok ())
    (hslot : ∀ held, store.slot event.path ≠ .free held) :
    store.apply options schema event =
      ((store.slot event.path).reply event).map fun outcome => (store, outcome) := by
  cases event with
  | set path value version =>
      rw [apply_set_of_check hcheck, leaf?_eq_held?]
      rw [Event.path] at hslot ⊢
      cases h : store.slot path with
      | free held => exact absurd h (hslot held)
      | blocked blocking => exact change_of_write_error (write_of_slot_blocked h _)
      | branch leaves => exact change_of_write_error (write_of_slot_branch h _)
  | delete path =>
      rw [Event.path] at hslot ⊢
      have hheld : (store.slot path).held? = none := by
        cases h : store.slot path with
        | free held => exact absurd h (hslot held)
        | blocked _ => rfl
        | branch _ => rfl
      rw [apply_delete_of_check hcheck, erase?_of_not_held hheld]
      cases h : store.slot path with
      | free held => exact absurd h (hslot held)
      | blocked _ => rfl
      | branch _ => rfl

theorem change_of_slot_free {store : Store} {path : Path} {held : Option Leaf}
    (hslot : store.slot path = .free held) (leaf : Leaf) :
    ∃ after, store.change path leaf =
        .ok (after, .applied ⟨path, held.map (·.value), some leaf.value, leaf.version⟩) ∧
      after.layout = store.layout.assign path (some leaf) := by
  obtain ⟨after, hwrite, hlayout⟩ := write_of_slot_free hslot leaf
  refine ⟨after, ?_, hlayout⟩
  rw [change, put, hwrite]
  rfl

/-- Where its slot is free, an admitted event revises the leaf held. -/
theorem apply_of_free {store : Store} {event : Event} {held : Option Leaf}
    (hcheck : event.check options schema = .ok ())
    (hslot : store.slot event.path = .free held) :
    ∃ after, store.apply options schema event = .ok (after, (event.revise held).2) ∧
      after.layout = if (event.revise held).1 = held then store.layout
        else store.layout.assign event.path (event.revise held).1 := by
  cases event with
  | set path value version =>
      rw [Event.path] at hslot ⊢
      rw [apply_set_of_check hcheck, leaf?_eq_held?, hslot, Slot.held?]
      cases held with
      | none =>
          obtain ⟨after, hchange, hlayout⟩ := change_of_slot_free hslot ⟨value, version⟩
          exact ⟨after, hchange, by simpa [Event.revise] using hlayout⟩
      | some held =>
          cases hrefusal : held.refusal? version with
          | some reason =>
              rw [Event.revise_of_refusal hrefusal]
              exact ⟨store, by simp only [hrefusal], by simp⟩
          | none =>
              rw [Event.revise_of_accepted hrefusal]
              simp only [hrefusal]
              -- The store stays only if neither the value nor the version moves.
              by_cases hvalue : held.value = value
              · by_cases hversion : held.version = held.nextVersion version
                · have hsame : (⟨value, held.nextVersion version⟩ : Leaf) = held := by
                    rw [← hvalue, ← hversion]
                  exact ⟨store, by simp [hvalue, ← hversion], by simp [hsame]⟩
                · obtain ⟨after, hwrite, hlayout⟩ :=
                    write_of_slot_free hslot ⟨value, held.nextVersion version⟩
                  have hnext : (⟨value, held.nextVersion version⟩ : Leaf) ≠ held := fun heq =>
                    hversion (congrArg Leaf.version heq).symm
                  refine ⟨after, ?_, by simpa [hnext] using hlayout⟩
                  rw [if_pos hvalue, if_neg hversion, put, hwrite, if_pos hvalue]
                  rfl
              · obtain ⟨after, hchange, hlayout⟩ :=
                  change_of_slot_free hslot ⟨value, held.nextVersion version⟩
                have hnext : (⟨value, held.nextVersion version⟩ : Leaf) ≠ held := fun heq =>
                  hvalue (congrArg Leaf.value heq).symm
                refine ⟨after, ?_, by simpa [hnext] using hlayout⟩
                simpa [hvalue] using hchange
  | delete path =>
      rw [Event.path] at hslot ⊢
      rw [apply_delete_of_check hcheck]
      cases held with
      | none =>
          rw [erase?_of_not_held (by rw [hslot]; rfl)]
          exact ⟨store, rfl, rfl⟩
      | some held =>
          obtain ⟨after, herase, hlayout⟩ := erase?_of_held hslot
          rw [herase]
          exact ⟨after, rfl, hlayout⟩

/-- The result of an event is that of its slot. -/
theorem answer_eq (store : Store) (event : Event) :
    store.answer options schema event = (store.slot event.path).answer options schema event := by
  rw [answer, Slot.answer]
  cases hcheck : event.check options schema with
  | error failure =>
      rw [apply_of_check_error hcheck]
      rfl
  | ok _ =>
      by_cases hslot : ∃ held, store.slot event.path = .free held
      · obtain ⟨held, hslot⟩ := hslot
        obtain ⟨after, happly, _⟩ := apply_of_free hcheck hslot
        rw [happly, hslot]
        rfl
      · rw [apply_of_not_free hcheck fun held h => hslot ⟨held, h⟩]
        cases (store.slot event.path).reply event <;> rfl

theorem answer_eq_ok_iff {store : Store} {event : Event} {outcome : Outcome} :
    store.answer options schema event = .ok outcome ↔
      event.isAdmitted options schema = true ∧
        (store.slot event.path).reply event = .ok outcome := by
  rw [answer_eq, Slot.answer, bind_eq_ok_iff, Event.isAdmitted_iff]
  constructor
  · rintro ⟨_, hcheck, hreply⟩
    exact ⟨hcheck, hreply⟩
  · rintro ⟨hcheck, hreply⟩
    exact ⟨(), hcheck, hreply⟩

/-- An event leaves the store as it is unless its slot is free. -/
theorem next_of_not_free {store : Store} {event : Event}
    (hslot : ∀ held, store.slot event.path ≠ .free held) :
    store.next options schema event = store := by
  rw [next]
  cases hcheck : event.check options schema with
  | error failure =>
      rw [apply_of_check_error hcheck]
      rfl
  | ok _ =>
      rw [apply_of_not_free hcheck hslot]
      cases (store.slot event.path).reply event <;> rfl

variable (options schema)

/-- An event at a free slot assigns the revised leaf to its path, if it is another one. -/
theorem layout_next_of_free {store : Store} {event : Event} {held : Option Leaf}
    (hslot : store.slot event.path = .free held) :
    (store.next options schema event).layout =
      if event.advance options schema held = held then store.layout
      else store.layout.assign event.path (event.advance options schema held) := by
  rw [next, Event.advance, Event.isAdmitted]
  cases hcheck : event.check options schema with
  | error failure =>
      rw [apply_of_check_error hcheck]
      simp [settle]
  | ok _ =>
      obtain ⟨after, happly, hlayout⟩ := apply_of_free hcheck hslot
      rw [happly]
      simpa [settle] using hlayout

variable {options schema}

/-- An admitted event at a free slot assigns what it makes of the leaf there, if that is another
one. -/
theorem layout_next_of_revised {store : Store} {event : Event} {held : Option Leaf}
    (hadmitted : event.isAdmitted options schema = true)
    (hslot : store.slot event.path = .free held) (hchanged : (event.revise held).1 ≠ held) :
    (store.next options schema event).layout =
      store.layout.assign event.path (event.revise held).1 := by
  rw [layout_next_of_free options schema hslot, Event.advance_of_admitted hadmitted,
    if_neg hchanged]

end Store

end PropertyTree
