import PropertyTree.Proofs.Schema.PrefixFree
import PropertyTree.Proofs.Store.Revision

/-! # Events at different paths are independent

An event changes the slot at its own path and, of all paths apart from it, none. Under a prefix-free
schema any two events at different paths are therefore independent: each has the same result before
and after the other, and either order ends in one store.
-/

namespace PropertyTree

namespace Store

/-- Stores that agree on the leaves above a path and on all from the path down agree on its slot. -/
theorem slot_congr {left right : Store} {path : Path}
    (habove : ∀ above : Path, above.isAbove path = true → ∀ held,
      left.layout above = .leaf held ↔ right.layout above = .leaf held)
    (hbeyond : ∀ beyond : Path, path.LeadsTo beyond → left.layout beyond = right.layout beyond) :
    left.slot path = right.slot path := by
  have hblocker : left.blocker? path = right.blocker? path := by
    refine Option.ext fun blocking => ?_
    rw [blocker?_eq_some_iff, blocker?_eq_some_iff]
    exact and_congr_right fun h => exists_congr fun held => habove blocking h held
  rw [slot, slot, hblocker, node?_congr hbeyond]

/-- A path holds what is assigned to it. -/
theorem slot_of_assign {store after : Store} {path : Path} {held : Option Leaf}
    (hafter : after.layout = store.layout.assign path held) : after.slot path = .free held := by
  rw [slot_eq_free_iff]
  refine ⟨Option.eq_none_iff_forall_ne_some.mpr fun blocking hblocking => ?_, ?_⟩
  · obtain ⟨habove, leaf, hleaf⟩ := blocker?_eq_some_iff.mp hblocking
    obtain ⟨hleads, hne⟩ := Path.isAbove_iff.mp habove
    rw [hafter, Layout.assign_eq_leaf_iff hne] at hleaf
    exact hleaf.1 hleads
  · rw [hafter, Layout.assign_self]

/-- An assignment to a path with a free slot leaves the leaves at all other paths. -/
theorem leaf_of_assign_iff {store after : Store} {path other : Path} {held next : Option Leaf}
    (hslot : store.slot path = .free held)
    (hafter : after.layout = store.layout.assign path next) (hne : other ≠ path) {leaf : Leaf} :
    after.layout other = .leaf leaf ↔ store.layout other = .leaf leaf := by
  rw [hafter, Layout.assign_eq_leaf_iff hne]
  refine ⟨fun h => h.2, fun hleaf => ⟨fun hleads => ?_, hleaf⟩⟩
  have hblocking := blocker?_eq_some_iff.mpr ⟨Path.isAbove_iff.mpr ⟨hleads, hne⟩, leaf, hleaf⟩
  rw [(slot_eq_free_iff.mp hslot).1] at hblocking
  cases hblocking

/-- An assignment to a path with a free slot leaves the slots of the paths apart from it. -/
theorem slot_of_assign_apart {store after : Store} {path other : Path} {held next : Option Leaf}
    (hslot : store.slot path = .free held)
    (hafter : after.layout = store.layout.assign path next) (hapart : path.Apart other) :
    after.slot other = store.slot other := by
  refine slot_congr (fun above habove leaf => ?_) fun beyond hbeyond => ?_
  · have hne : above ≠ path := by
      rintro rfl
      exact hapart.1 (Path.isAbove_iff.mp habove).1
    exact leaf_of_assign_iff hslot hafter hne
  · rw [hafter, Layout.assign_of_not_leadsTo (hapart.symm.not_leadsTo hbeyond)]

variable (options : Options) (schema : Schema)

/-- The store after an event is the old one or has another leaf at the path, and the slot there is
what the event makes of it. -/
theorem next_cases (store : Store) (event : Event) :
    store.next options schema event = store ∨
    ∃ held, store.slot event.path = .free held ∧
      (store.next options schema event).layout =
        store.layout.assign event.path (event.advance options schema held) := by
  by_cases hslot : ∃ held, store.slot event.path = .free held
  · obtain ⟨held, hslot⟩ := hslot
    have hlayout := layout_next_of_free options schema hslot
    split at hlayout
    next => exact Or.inl (ext_layout hlayout)
    next => exact Or.inr ⟨held, hslot, hlayout⟩
  · exact Or.inl (next_of_not_free fun held h => hslot ⟨held, h⟩)

variable {options schema} in
/-- An event that makes the leaf held of the leaf held leaves the store as it is. -/
theorem next_of_advance_eq {store : Store} {event : Event}
    (hsame : ∀ held, store.slot event.path = .free held →
      event.advance options schema held = held) :
    store.next options schema event = store := by
  rcases store.next_cases options schema event with hnext | ⟨held, hslot, hlayout⟩
  · exact hnext
  · have hfree := layout_next_of_free options schema hslot
    rw [if_pos (hsame held hslot)] at hfree
    exact ext_layout hfree

theorem slot_next_self (store : Store) (event : Event) :
    (store.next options schema event).slot event.path =
      (store.slot event.path).advance options schema event := by
  cases hslot : store.slot event.path with
  | blocked _ => rw [next_of_not_free (by simp [hslot]), hslot, Slot.advance]
  | branch _ => rw [next_of_not_free (by simp [hslot]), hslot, Slot.advance]
  | free held =>
      have hlayout := layout_next_of_free options schema hslot
      rw [Slot.advance]
      split at hlayout
      next hsame => rw [ext_layout hlayout, hslot, hsame]
      next => exact slot_of_assign hlayout

theorem slot_next_of_apart (store : Store) {event : Event} {other : Path}
    (hapart : event.path.Apart other) :
    (store.next options schema event).slot other = store.slot other := by
  rcases next_cases options schema store event with
    hsame | ⟨held, hslot, hlayout⟩
  · rw [hsame]
  · exact slot_of_assign_apart hslot hlayout hapart

/-- Events at paths apart end in one store in either order. -/
theorem next_comm_of_apart (store : Store) {first second : Event}
    (hapart : first.path.Apart second.path) :
    (store.next options schema first).next options schema second =
      (store.next options schema second).next options schema first := by
  have hfirst := store.slot_next_of_apart options schema hapart.symm
  have hsecond := store.slot_next_of_apart options schema hapart
  by_cases hfree : ∃ held, store.slot first.path = .free held
  · obtain ⟨held, hheld⟩ := hfree
    by_cases hfree' : ∃ other, store.slot second.path = .free other
    · obtain ⟨other, hother⟩ := hfree'
      refine ext_layout ?_
      rw [layout_next_of_free options schema (hsecond.trans hother),
        layout_next_of_free options schema hheld,
        layout_next_of_free options schema (hfirst.trans hheld),
        layout_next_of_free options schema hother]
      by_cases hsame : first.advance options schema held = held
      · simp only [if_pos hsame]
      · by_cases hsame' : second.advance options schema other = other
        · simp only [if_pos hsame']
        · simp only [if_neg hsame, if_neg hsame']
          exact Layout.assign_comm hapart _ _ _
    · have hstays : ∀ held, store.slot second.path ≠ .free held := by simpa using hfree'
      have hthen : (store.next options schema first).next options schema second =
          store.next options schema first := next_of_not_free (by rwa [hsecond])
      rw [hthen, next_of_not_free hstays]
  · have hstays : ∀ held, store.slot first.path ≠ .free held := by simpa using hfree
    have hthen : (store.next options schema second).next options schema first =
        store.next options schema second := next_of_not_free (by rwa [hfirst])
    rw [hthen, next_of_not_free hstays]

variable {options schema}

theorem check_of_not_declares {event : Event} (h : schema.declares event.path = false) :
    event.check options schema = .error (.schema (.unknownProperty event.path.dotted)) := by
  have hlookup : schema.lookup event.path = .error (.unknownProperty event.path.dotted) := by
    rw [Schema.declares, Option.isSome_eq_false_iff, Option.isNone_iff_eq_none] at h
    rw [Schema.lookup, h]
  cases event with
  | set path value version =>
      rw [Event.path] at hlookup
      rw [Event.check, Schema.check, hlookup]
      rfl
  | delete path =>
      rw [Event.path] at hlookup
      rw [Event.check, hlookup]
      rfl

theorem next_of_not_declares {event : Event} (h : schema.declares event.path = false)
    (store : Store) : store.next options schema event = store := by
  rw [next, apply_of_check_error (check_of_not_declares h)]
  rfl

variable (options) in
/-- Under a prefix-free schema, events at different paths end in one store in either order. -/
theorem next_comm (hfree : schema.PrefixFree) (store : Store) {first second : Event}
    (hne : first.path ≠ second.path) :
    (store.next options schema first).next options schema second =
      (store.next options schema second).next options schema first := by
  cases hfirst : schema.declares first.path with
  | false => rw [next_of_not_declares hfirst, next_of_not_declares hfirst]
  | true =>
      cases hsecond : schema.declares second.path with
      | false => rw [next_of_not_declares hsecond, next_of_not_declares hsecond]
      | true => exact store.next_comm_of_apart options schema (hfree.apart hfirst hsecond hne)

/-- Under a prefix-free schema, an event has the same result before and after an event at another
path. -/
theorem answer_next_of_ne (hfree : schema.PrefixFree) (store : Store) {first second : Event}
    (hne : first.path ≠ second.path) :
    (store.next options schema first).answer options schema second =
      store.answer options schema second := by
  rw [answer_eq, answer_eq]
  cases hfirst : schema.declares first.path with
  | false => rw [next_of_not_declares hfirst]
  | true =>
      cases hsecond : schema.declares second.path with
      | false => rw [Slot.answer, Slot.answer, check_of_not_declares hsecond]; rfl
      | true => rw [store.slot_next_of_apart options schema (hfree.apart hfirst hsecond hne)]

end Store

end PropertyTree
