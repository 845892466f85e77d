import PropertyTree.Proofs.Store.Held
import PropertyTree.Proofs.Store.Interleaving

/-! # Replayed batches

A batch that is delivered once more ends where it ended the first time. The events of one path are
brought to the front, together for both deliveries; there the second delivery changes nothing, since
a run has its full effect on a leaf the first time. The events of the other paths follow in the same
way.
-/

namespace PropertyTree

namespace Store

variable (options : Options) (schema : Schema) {path : Path} {events : List Event}

theorem slot_after_of_path (hpath : ∀ event ∈ events, event.path = path) {store : Store}
    {held : Option Leaf} (hslot : store.slot path = .free held) :
    (store.after options schema events).slot path =
      .free (Event.advanceAll options schema events held) := by
  induction events generalizing store held with
  | nil => exact hslot
  | cons event rest ih =>
      have hevent : event.path = path := hpath event List.mem_cons_self
      rw [after_cons, Event.advanceAll_cons]
      apply ih fun other hmem => hpath other (List.mem_cons_of_mem _ hmem)
      rw [← hevent, slot_next_self, hevent, hslot, Slot.advance]

/-- A run of events at one path leaves the store or assigns what it makes of the leaf held. -/
theorem after_of_path (hpath : ∀ event ∈ events, event.path = path) (store : Store) :
    store.after options schema events = store ∨
    ∃ held, store.slot path = .free held ∧
      (store.after options schema events).layout =
        store.layout.assign path (Event.advanceAll options schema events held) := by
  induction events generalizing store with
  | nil => exact Or.inl rfl
  | cons event rest ih =>
      have hevent : event.path = path := hpath event List.mem_cons_self
      have hrest : ∀ other ∈ rest, other.path = path := fun other hmem =>
        hpath other (List.mem_cons_of_mem _ hmem)
      rw [after_cons]
      rcases store.next_cases options schema event with hsame | ⟨held, hslot, hlayout⟩
      · rw [hsame]
        rcases ih hrest store with hafter | ⟨held, hslot, hlayout⟩
        · exact Or.inl hafter
        · have hadvance := slot_next_self options schema store event
          rw [hsame, hevent, hslot, Slot.advance, Slot.free.injEq] at hadvance
          refine Or.inr ⟨held, hslot, ?_⟩
          rw [hlayout, Event.advanceAll_cons, ← hadvance]
      · rw [hevent] at hslot hlayout
        refine Or.inr ⟨held, hslot, ?_⟩
        have hnext := slot_of_assign hlayout
        rw [Event.advanceAll_cons]
        rcases ih hrest (store.next options schema event) with hafter | ⟨other, hother, hafter⟩
        · -- The rest leaves the store, so it does not move the leaf held either.
          have hslot' := slot_after_of_path options schema hrest hnext
          rw [hafter, hnext, Slot.free.injEq] at hslot'
          rw [hafter, hlayout, ← hslot']
        · rw [hnext, Slot.free.injEq] at hother
          rw [hafter, hlayout, Layout.assign_assign, hother]

variable {options schema}

/-- At one path, the second delivery of a run changes nothing. -/
theorem after_after_of_path (hpath : ∀ event ∈ events, event.path = path) (store : Store) :
    (store.after options schema events).after options schema events =
      store.after options schema events := by
  rcases after_of_path options schema hpath store with hafter | ⟨held, hslot, hlayout⟩
  · rw [hafter, hafter]
  · have hfirst := slot_of_assign hlayout
    rcases after_of_path options schema hpath (store.after options schema events) with
      hsecond | ⟨other, hother, hsecond⟩
    · exact hsecond
    · rw [hfirst, Slot.free.injEq] at hother
      apply ext_layout
      rw [hsecond, ← hother, Event.advanceAll_idem, hlayout, Layout.assign_assign]

/-- The events at a path may all come before the others. -/
theorem sameAtEachPath_partition (events : List Event) (path : Path) :
    SameAtEachPath events
      (events.filter (fun event => event.path = path) ++
        events.filter fun event => ¬ event.path = path) := by
  intro other
  rw [List.filter_append, List.filter_filter, List.filter_filter]
  by_cases hother : other = path
  · subst hother
    simp
  · have hnone : events.filter (fun event =>
        decide (event.path = other) && decide (event.path = path)) = [] := by
      rw [List.filter_eq_nil_iff]
      intro event _
      simp only [Bool.and_eq_true, decide_eq_true_eq, not_and]
      rintro rfl
      exact hother
    rw [hnone, List.nil_append]
    apply List.filter_congr
    intro event _
    by_cases hevent : event.path = other
    · simp [hevent, hother]
    · simp [hevent]

/-- Under a prefix-free schema, the events at a path may be delivered before all others. -/
theorem after_partition (hfree : schema.PrefixFree) (events : List Event) (path : Path)
    (store : Store) :
    store.after options schema events =
      (store.after options schema (events.filter fun event => event.path = path)).after options
        schema (events.filter fun event => ¬ event.path = path) := by
  rw [← after_append]
  exact (interleaving_of_prefixFree hfree (sameAtEachPath_partition events path) store).1

/-- Under a prefix-free schema, the second delivery of a run changes nothing. -/
theorem after_after_of_prefixFree (hfree : schema.PrefixFree) (events : List Event)
    (store : Store) :
    (store.after options schema events).after options schema events =
      store.after options schema events := by
  match events with
  | [] => rfl
  | event :: rest =>
      have hothers : (event :: rest).filter (fun other => ¬ other.path = event.path) =
          rest.filter fun other => ¬ other.path = event.path := List.filter_cons_of_neg (by simp)
      have hhere : ∀ other ∈ (event :: rest).filter fun other => other.path = event.path,
          other.path = event.path := by simp
      -- Split over both deliveries at once, the second run at the path follows the first.
      rw [← after_append, after_partition hfree (_ ++ _) event.path,
        after_partition hfree (event :: rest) event.path, List.filter_append, List.filter_append,
        after_append, after_append, after_after_of_path hhere, hothers]
      exact after_after_of_prefixFree hfree _ _
termination_by events.length
decreasing_by exact Nat.lt_succ_of_le (List.length_filter_le _ rest)

/-- Under a schema that was built, a batch that is delivered once more changes nothing, whatever is
made of its changes. -/
theorem applyBatch_replay {spec : SchemaSection} (hbuild : spec.build = .ok schema)
    (options : Options) (store : Store) (events : List WireEvent) {σ : Type}
    (onApplied : σ → Change → σ) (state again : σ) :
    ((store.applyBatch options schema onApplied state events).store.applyBatch options schema
      onApplied again events).store =
        (store.applyBatch options schema onApplied state events).store := by
  have hfree : schema.PrefixFree := SchemaSection.prefixFree_of_build hbuild
  rw [applyBatch_eq, applyBatch_eq]
  simp only [applyAllWire_fst]
  exact after_after_of_prefixFree hfree _ store

/-- Sets and deletes the switch, then sets it anew; a key that is no path stands between. -/
def switchAnew : List WireEvent :=
  [.set "lamp.on" (some (.bool true)) (some ⟨2⟩), .delete "lamp.on", .delete "lamp..on",
    .set "lamp.on" (some (.bool false)) (some ⟨1⟩)]

/-- Each delivery deletes what it has set, then sets it anew. -/
theorem applyBatch_replay_lamp :
    SchemaSection.lamp.build = .ok .lamp ∧
      ((Store.empty.applyBatch ⟨false⟩ .lamp (fun count _ => count + 1) 0
        switchAnew).store.applyBatch ⟨false⟩ .lamp (fun count _ => count + 1) 3
          switchAnew).store =
        (Store.empty.applyBatch ⟨false⟩ .lamp (fun count _ => count + 1) 0 switchAnew).store :=
  ⟨SchemaSection.build_lamp,
    applyBatch_replay SchemaSection.build_lamp ⟨false⟩ .empty _ _ 0 3⟩

end Store

end PropertyTree
