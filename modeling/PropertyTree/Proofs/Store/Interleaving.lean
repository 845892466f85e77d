import PropertyTree.Proofs.Store.Independence
import PropertyTree.Proofs.Store.Run

/-! # The order of events across paths

A run may be reordered as long as the events at each path keep their order: an event moves to the
front of all earlier events at other paths without changing their results or its own.
-/

namespace PropertyTree

namespace Store

variable (options : Options) (schema : Schema)

/-- The events of a run at one path, with their results. -/
def resultsAt (store : Store) (events : List Event) (path : Path) :
    List (Event × Except Failure Outcome) :=
  (events.zip (store.applyAll options schema events).2).filter fun entry =>
    entry.1.path = path

@[simp] theorem resultsAt_nil (store : Store) (path : Path) :
    store.resultsAt options schema [] path = [] := rfl

theorem resultsAt_cons (store : Store) (event : Event) (rest : List Event) (path : Path) :
    store.resultsAt options schema (event :: rest) path =
      if event.path = path then
        (event, store.answer options schema event) ::
          (store.next options schema event).resultsAt options schema rest path
      else (store.next options schema event).resultsAt options schema rest path := by
  simp only [resultsAt, applyAll, List.zip_cons_cons, List.filter_cons, decide_eq_true_eq]
  rfl

theorem resultsAt_append (store : Store) (front back : List Event) (path : Path) :
    store.resultsAt options schema (front ++ back) path =
      store.resultsAt options schema front path ++
        (store.after options schema front).resultsAt options schema back path := by
  induction front generalizing store with
  | nil => rfl
  | cons event rest ih =>
      rw [List.cons_append, resultsAt_cons, resultsAt_cons, ih, after_cons]
      split <;> rfl

theorem resultsAt_eq_nil {events : List Event} {path : Path}
    (h : ∀ event ∈ events, event.path ≠ path) (store : Store) :
    store.resultsAt options schema events path = [] := by
  induction events generalizing store with
  | nil => rfl
  | cons event rest ih =>
      rw [resultsAt_cons, if_neg (h event List.mem_cons_self)]
      exact ih (fun other hmem => h other (List.mem_cons_of_mem _ hmem)) _

section Move

variable {schema} {event : Event} {front : List Event}

/-- An event may come before earlier events at other paths: the store in the end, their results and
its own stay the same. -/
theorem move_to_front (hfree : schema.PrefixFree)
    (hother : ∀ earlier ∈ front, earlier.path ≠ event.path) (store : Store) :
    (store.next options schema event).after options schema front =
        (store.after options schema front).next options schema event ∧
      (store.after options schema front).answer options schema event =
        store.answer options schema event ∧
      ∀ path, (store.next options schema event).resultsAt options schema front path =
        store.resultsAt options schema front path := by
  induction front generalizing store with
  | nil => exact ⟨rfl, rfl, fun _ => rfl⟩
  | cons earlier rest ih =>
      have hne : earlier.path ≠ event.path := hother earlier List.mem_cons_self
      have hrest : ∀ other ∈ rest, other.path ≠ event.path := fun other hmem =>
        hother other (List.mem_cons_of_mem _ hmem)
      obtain ⟨hafter, hanswer, hresults⟩ := ih hrest (store.next options schema earlier)
      have hswap := next_comm options hfree store hne
      refine ⟨?_, ?_, fun path => ?_⟩
      · rw [after_cons, after_cons, ← hswap, hafter]
      · rw [after_cons, hanswer, answer_next_of_ne hfree store hne]
      · rw [resultsAt_cons, resultsAt_cons, ← hswap, hresults,
          answer_next_of_ne hfree store hne.symm]

end Move

end Store

/-- Two runs have the same events at each path, in the same order. They are then permutations of
each other that move no event past another at its path. -/
def SameAtEachPath (left right : List Event) : Prop :=
  ∀ path : Path, left.filter (fun event => event.path = path) =
    right.filter fun event => event.path = path

/-- Only the paths of the events need to be looked at. -/
theorem sameAtEachPath_iff {left right : List Event} :
    SameAtEachPath left right ↔ ∀ event ∈ left ++ right,
      left.filter (fun other => other.path = event.path) =
        right.filter fun other => other.path = event.path := by
  refine ⟨fun h event _ => h event.path, fun h path => ?_⟩
  by_cases hpath : ∃ event ∈ left ++ right, event.path = path
  · obtain ⟨event, hmem, rfl⟩ := hpath
    exact h event hmem
  · have hnone : ∀ event ∈ left ++ right, ¬ event.path = path := by simpa using hpath
    rw [List.filter_eq_nil_iff.mpr, List.filter_eq_nil_iff.mpr]
    · intro event hmem
      simpa using hnone event (List.mem_append_right left hmem)
    · intro event hmem
      simpa using hnone event (List.mem_append_left right hmem)

instance (left right : List Event) : Decidable (SameAtEachPath left right) :=
  decidable_of_iff _ sameAtEachPath_iff.symm

namespace Store

variable {options : Options} {schema : Schema}

theorem interleaving_of_prefixFree (hfree : schema.PrefixFree) {left right : List Event}
    (hsame : SameAtEachPath left right) (store : Store) :
    store.after options schema left = store.after options schema right ∧
      ∀ path, store.resultsAt options schema left path =
        store.resultsAt options schema right path := by
  induction left generalizing right store with
  | nil =>
      have hnil : right = [] := by
        refine List.eq_nil_iff_forall_not_mem.mpr fun event hmem => ?_
        have hfilter := hsame event.path
        rw [List.filter_nil, eq_comm, List.filter_eq_nil_iff] at hfilter
        simpa using hfilter event hmem
      rw [hnil]
      exact ⟨rfl, fun _ => rfl⟩
  | cons event rest ih =>
      have hfilter := hsame event.path
      rw [List.filter_cons_of_pos (by simp), eq_comm, List.filter_eq_cons_iff] at hfilter
      -- The first event of the left run is the first at its path in the right one.
      obtain ⟨front, back, rfl, hfront, -, hback⟩ := hfilter
      have hother : ∀ earlier ∈ front, earlier.path ≠ event.path := by simpa using hfront
      have hrest : SameAtEachPath rest (front ++ back) := by
        intro path
        have hpath := hsame path
        rw [List.filter_append, List.filter_cons, List.filter_cons] at hpath
        rw [List.filter_append]
        by_cases heq : event.path = path
        · subst heq
          have hnone : front.filter (fun earlier => earlier.path = event.path) = [] := by
            simpa [List.filter_eq_nil_iff] using hother
          simpa [hnone] using hpath
        · simpa [heq] using hpath
      obtain ⟨hafter, hresults⟩ := ih hrest (store.next options schema event)
      obtain ⟨hmove, hanswer, hmoved⟩ := move_to_front options hfree hother store
      constructor
      · rw [after_cons, hafter, after_append, after_append, after_cons, hmove]
      · intro path
        rw [resultsAt_cons, hresults, resultsAt_append, resultsAt_append, resultsAt_cons, hmoved,
          hmove, hanswer]
        split
        next heq =>
          rw [resultsAt_eq_nil options schema (heq ▸ hother)]
          rfl
        next => rfl

/-- Under a schema that was built, events may be delivered in any order that keeps the order at each
path. Both runs end in one store and give each event a result, and the events at each path have the
same results in both. -/
theorem applyAll_interleaving {spec : SchemaSection} (hbuild : spec.build = .ok schema)
    (options : Options) (store : Store) {left right : List Event}
    (hsame : SameAtEachPath left right) :
    (store.applyAll options schema left).1 = (store.applyAll options schema right).1 ∧
      (store.applyAll options schema left).2.length = left.length ∧
      (store.applyAll options schema right).2.length = right.length ∧
      ∀ path : Path,
        (left.zip (store.applyAll options schema left).2).filter
            (fun entry => entry.1.path = path) =
          (right.zip (store.applyAll options schema right).2).filter
            fun entry => entry.1.path = path := by
  obtain ⟨hstore, hresults⟩ :=
    interleaving_of_prefixFree (SchemaSection.prefixFree_of_build hbuild) hsame store
  exact ⟨hstore, store.length_applyAll options schema left,
    store.length_applyAll options schema right, hresults⟩

/-- The switch is set and deleted before the brightness is set. -/
def switchFirst : List Event :=
  [.set .lampOn (.bool true) none, .delete .lampOn, .set .lampDim (.bool true) none]

/-- The brightness is set before the switch is set and deleted. -/
def switchLast : List Event :=
  [.set .lampDim (.bool true) none, .set .lampOn (.bool true) none, .delete .lampOn]

/-- In the one order the branch of the lamp is pruned and made again, in the other it stays. -/
theorem applyAll_interleaving_lamp :
    let first := Store.empty.applyAll ⟨false⟩ .lamp switchFirst
    let last := Store.empty.applyAll ⟨false⟩ .lamp switchLast
    SchemaSection.lamp.build = .ok .lamp ∧ SameAtEachPath switchFirst switchLast ∧
      first.1 = last.1 ∧ first.2.length = 3 ∧ last.2.length = 3 ∧
      ∀ path : Path, (switchFirst.zip first.2).filter (fun entry => entry.1.path = path) =
        (switchLast.zip last.2).filter fun entry => entry.1.path = path := by
  intro first last
  have hsame : SameAtEachPath switchFirst switchLast := by decide
  obtain ⟨hstore, hfirst, hlast, hresults⟩ :=
    applyAll_interleaving SchemaSection.build_lamp ⟨false⟩ .empty hsame
  exact ⟨SchemaSection.build_lamp, hsame, hstore, hfirst, hlast, hresults⟩

end Store

end PropertyTree
