import PropertyTree.Proofs.Store.Held
import PropertyTree.Proofs.Store.Interleaving

/-! # Numbered sets converge

Sets with versions may be delivered in any order and any number of times: as long as equal versions
at one path carry equal values, the same events end in the same store. Any two of them commute, and
one that has just been delivered does nothing the second time.
-/

namespace PropertyTree

/-- Every event is a set with a version, and equal versions at one path carry equal values. -/
structure ConsistentlyNumbered (events : List Event) : Prop where
  numbered : ∀ event ∈ events, ∃ path value version, event = .set path value (some version)
  agree : ∀ path version left right, .set path left (some version) ∈ events →
    .set path right (some version) ∈ events → left = right

namespace Store

variable {options : Options} {schema : Schema} {store : Store} {event first second : Event}
  {held : Option Leaf}

/-- An event does nothing where it finds the slot that it leaves behind. -/
theorem next_of_slot_eq_advance {store : Store} {slot : Slot}
    (h : store.slot event.path = slot.advance options schema event) :
    store.next options schema event = store := by
  apply next_of_advance_eq
  intro held hslot
  rw [h] at hslot
  cases slot with
  | free before =>
      rw [Slot.advance, Slot.free.injEq] at hslot
      rw [← hslot]
      exact Event.advanceAll_idem [event] before
  | blocked _ => cases hslot
  | branch _ => cases hslot

/-- An event does nothing when it is delivered once more at once. -/
theorem next_next (store : Store) (event : Event) :
    (store.next options schema event).next options schema event =
      store.next options schema event :=
  next_of_slot_eq_advance (slot_next_self options schema store event)

theorem next_of_not_admitted (h : ¬ event.isAdmitted options schema = true) (store : Store) :
    store.next options schema event = store :=
  next_of_advance_eq fun held _ => Event.advance_of_not_admitted h held

/-- An admitted set assigns what it makes of the leaf held, even if that is the same leaf. -/
theorem layout_next_of_set (hset : event.kind = .set)
    (hadmitted : event.isAdmitted options schema = true)
    (hslot : store.slot event.path = .free held) :
    (store.next options schema event).layout =
      store.layout.assign event.path (event.revise held).1 := by
  rw [layout_next_of_free options schema hslot, Event.advance_of_admitted hadmitted]
  split
  next hsame =>
    -- To assign nothing could prune, but a set always leaves a leaf.
    obtain ⟨leaf, hleaf⟩ := Option.isSome_iff_exists.mp (Event.isSome_revise hset held)
    rw [hleaf] at hsame ⊢
    rw [← hsame, slot_eq_free_some_iff] at hslot
    exact (assign_of_layout hslot).symm
  next => rfl

theorem layout_next_next_of_set (hpath : second.path = first.path) (hfirst : first.kind = .set)
    (hsecond : second.kind = .set) (hadmitted : first.isAdmitted options schema = true)
    (hadmitted' : second.isAdmitted options schema = true)
    (hslot : store.slot first.path = .free held) :
    ((store.next options schema first).next options schema second).layout =
      store.layout.assign first.path (second.revise (first.revise held).1).1 := by
  have hthen : (store.next options schema first).slot second.path =
      .free (first.revise held).1 := by
    rw [hpath, slot_next_self, hslot, Slot.advance, Event.advance_of_admitted hadmitted]
  rw [layout_next_of_set hsecond hadmitted' hthen, hpath,
    layout_next_of_set hfirst hadmitted hslot, Layout.assign_assign]

/-- Sets at one path commute if they commute on the leaf held. -/
theorem next_comm_of_path_eq (hpath : second.path = first.path) (hfirst : first.kind = .set)
    (hsecond : second.kind = .set)
    (hcomm : ∀ held, (second.revise (first.revise held).1).1 =
      (first.revise (second.revise held).1).1) (store : Store) :
    (store.next options schema first).next options schema second =
      (store.next options schema second).next options schema first := by
  by_cases hadmitted : first.isAdmitted options schema = true
  · by_cases hadmitted' : second.isAdmitted options schema = true
    · by_cases hfree : ∃ held, store.slot first.path = .free held
      · obtain ⟨held, hslot⟩ := hfree
        have hslot' : store.slot second.path = .free held := hpath ▸ hslot
        apply ext_layout
        rw [layout_next_next_of_set hpath hfirst hsecond hadmitted hadmitted' hslot, hcomm,
          layout_next_next_of_set hpath.symm hsecond hfirst hadmitted' hadmitted hslot', hpath]
      · have hstays : ∀ held, store.slot first.path ≠ .free held := by simpa using hfree
        have hstays' : ∀ held, store.slot second.path ≠ .free held := hpath ▸ hstays
        rw [next_of_not_free hstays, next_of_not_free hstays', next_of_not_free hstays]
    · rw [next_of_not_admitted hadmitted', next_of_not_admitted hadmitted']
  · rw [next_of_not_admitted hadmitted, next_of_not_admitted hadmitted]

section Numbered

variable {events : List Event}

/-- Any two events of a consistently numbered list commute. -/
theorem next_comm_of_numbered (hfree : schema.PrefixFree) (hnumbered : ConsistentlyNumbered events)
    (hfirst : first ∈ events) (hsecond : second ∈ events) (store : Store) :
    (store.next options schema first).next options schema second =
      (store.next options schema second).next options schema first := by
  by_cases hpath : second.path = first.path
  · obtain ⟨path, value, n, rfl⟩ := hnumbered.numbered first hfirst
    obtain ⟨path', value', m, rfl⟩ := hnumbered.numbered second hsecond
    obtain rfl : path' = path := hpath
    have hagree : n = m → value = value' := by
      rintro rfl
      exact hnumbered.agree path' n value value' hfirst hsecond
    apply next_comm_of_path_eq
    · rfl
    · rfl
    · rfl
    · intro held
      exact Event.revise_comm hagree held
  · exact next_comm options hfree store (Ne.symm hpath)

/-- What a list delivers, one of its events need not deliver before it. -/
theorem after_next_of_mem (hfree : schema.PrefixFree) (hnumbered : ConsistentlyNumbered events)
    {later : List Event} (hlater : ∀ event ∈ later, event ∈ events) (hmem : event ∈ later)
    (store : Store) :
    (store.next options schema event).after options schema later =
      store.after options schema later := by
  induction later generalizing store with
  | nil => cases hmem
  | cons next rest ih =>
      have hnext : next ∈ events := hlater next List.mem_cons_self
      have hrest : ∀ event ∈ rest, event ∈ events := fun event hmem =>
        hlater event (List.mem_cons_of_mem _ hmem)
      rw [after_cons, after_cons]
      rcases List.mem_cons.mp hmem with rfl | hthere
      · rw [next_next]
      · rw [next_comm_of_numbered hfree hnumbered (hrest event hthere) hnext, ih hrest hthere]

/-- A list that delivers all of another need not be preceded by it. -/
theorem after_after_of_subset (hfree : schema.PrefixFree)
    (hnumbered : ConsistentlyNumbered events) {earlier later : List Event}
    (hlater : ∀ event ∈ later, event ∈ events) (hsubset : ∀ event ∈ earlier, event ∈ later)
    (store : Store) :
    (store.after options schema earlier).after options schema later =
      store.after options schema later := by
  induction earlier generalizing store with
  | nil => rfl
  | cons event rest ih =>
      have hrest : ∀ event ∈ rest, event ∈ later := fun event hmem =>
        hsubset event (List.mem_cons_of_mem _ hmem)
      rw [after_cons, ih hrest,
        after_next_of_mem hfree hnumbered hlater (hsubset event List.mem_cons_self)]

theorem after_of_perm (hfree : schema.PrefixFree) (hnumbered : ConsistentlyNumbered events)
    {left right : List Event} (hleft : ∀ event ∈ left, event ∈ events) (hperm : left.Perm right)
    (store : Store) :
    store.after options schema left = store.after options schema right := by
  rw [after_eq_foldl, after_eq_foldl]
  apply hperm.foldl_eq'
  intro first hfirst second hsecond store
  exact next_comm_of_numbered hfree hnumbered (hleft first hfirst) (hleft second hsecond) store

end Numbered

/-- Under a schema that was built, lists of the same consistently numbered sets end in one store,
whatever the order and the repetitions. -/
theorem applyAll_convergence {spec : SchemaSection} (hbuild : spec.build = .ok schema)
    (options : Options) (store : Store) {left right : List Event}
    (hsame : ∀ event, event ∈ left ↔ event ∈ right) (hnumbered : ConsistentlyNumbered left) :
    (store.applyAll options schema left).1 = (store.applyAll options schema right).1 := by
  have hfree : schema.PrefixFree := SchemaSection.prefixFree_of_build hbuild
  have hleft : ∀ event ∈ left, event ∈ left := fun _ hmem => hmem
  have hright : ∀ event ∈ right, event ∈ left := fun event hmem => (hsame event).mpr hmem
  have hboth : ∀ event ∈ right ++ left, event ∈ left := by
    intro event hmem
    exact (List.mem_append.mp hmem).elim (hright event) (hleft event)
  calc store.after options schema left
      = (store.after options schema right).after options schema left :=
        (after_after_of_subset hfree hnumbered hleft hright store).symm
    _ = store.after options schema (right ++ left) := (after_append options schema ..).symm
    _ = store.after options schema (left ++ right) :=
        after_of_perm hfree hnumbered hboth List.perm_append_comm store
    _ = (store.after options schema left).after options schema right :=
        after_append options schema ..
    _ = store.after options schema right :=
        after_after_of_subset hfree hnumbered hright (fun event hmem => (hsame event).mp hmem) store

theorem applyAll_convergence_lamp :
    SchemaSection.lamp.build = .ok .lamp ∧
      ConsistentlyNumbered
        [.set .lampOn (.bool false) (some ⟨1⟩), .set .lampOn (.bool true) (some ⟨2⟩)] ∧
      (Store.empty.applyAll ⟨false⟩ .lamp
          [.set .lampOn (.bool false) (some ⟨1⟩), .set .lampOn (.bool true) (some ⟨2⟩)]).1 =
        (Store.empty.applyAll ⟨false⟩ .lamp
          [.set .lampOn (.bool true) (some ⟨2⟩), .set .lampOn (.bool false) (some ⟨1⟩),
            .set .lampOn (.bool true) (some ⟨2⟩)]).1 := by
  have hnumbered : ConsistentlyNumbered
      [.set .lampOn (.bool false) (some ⟨1⟩), .set .lampOn (.bool true) (some ⟨2⟩)] := by
    constructor
    · simp
    · intro path version left right hleft hright
      simp only [List.mem_cons, Event.set.injEq, List.not_mem_nil, or_false] at hleft hright
      rcases hleft with ⟨-, rfl, hleft⟩ | ⟨-, rfl, hleft⟩ <;>
      rcases hright with ⟨-, rfl, hright⟩ | ⟨-, rfl, hright⟩ <;> simp_all
  refine ⟨SchemaSection.build_lamp, hnumbered, ?_⟩
  refine applyAll_convergence SchemaSection.build_lamp ⟨false⟩ .empty ?_ hnumbered
  intro event
  simp only [List.mem_cons]
  tauto
end Store

end PropertyTree
