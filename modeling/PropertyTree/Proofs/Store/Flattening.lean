import PropertyTree.Proofs.Store.Independence
import PropertyTree.Proofs.Store.LeafMap

/-! # Events on trees are events on flat maps

The walks through the tree that find what blocks a path, put a leaf or erase one with the branches
it leaves empty come to one update of the flat map of the leaves, with no effect on other paths.
-/

namespace PropertyTree

namespace LeafMap

variable {options : Options} {schema : Schema} {isBranch : Bool} {map : LeafMap}

/-- The checks that need no leaves decide as for a tree. -/
theorem apply_of_check_error {event : Event} {failure : Failure}
    (hcheck : event.check options schema = .error failure) :
    map.apply options schema isBranch event = (map, .error failure) := by
  cases event with
  | set path value version =>
      rw [Event.check_set] at hcheck
      rw [apply, set]
      cases hget : schema.get? path with
      | none =>
          simp only [hget, Except.error.injEq] at hcheck
          rw [hcheck]
      | some descriptor =>
          simp only [hget] at hcheck ⊢
          split at hcheck
          next hmisfit =>
            cases hcheck
            rw [if_pos hmisfit]
          next hfits =>
            split at hcheck
            next hmissing =>
              cases hcheck
              rw [if_neg hfits, if_pos hmissing]
            next => cases hcheck
  | delete path =>
      rw [Event.check_delete] at hcheck
      rw [apply, delete]
      cases hget : schema.get? path with
      | none =>
          simp only [hget, Except.error.injEq] at hcheck
          rw [hcheck]
      | some descriptor =>
          simp only [hget] at hcheck
          cases hcheck

theorem set_of_check {path : Path} {value : Value} {version : Option Version}
    (hcheck : (Event.set path value version).check options schema = .ok ()) :
    map.set options schema isBranch path value version =
      match map.above? path with
      | some blocking => (map, .error (.write (.pathConflict path.dotted blocking.dotted)))
      | none =>
          if isBranch then
            (map, .error (.write (.branchConflict path.dotted (map.countBelow path))))
          else
            match map.staleness? path version with
            | some reason => (map, .ok (.noOp reason))
            | none => ((map.write path value version).1, .ok (map.write path value version).2) := by
  rw [Event.check_set] at hcheck
  rw [set]
  cases hget : schema.get? path with
  | none =>
      simp only [hget] at hcheck
      cases hcheck
  | some descriptor =>
      simp only [hget] at hcheck ⊢
      split at hcheck
      next => cases hcheck
      next hfits =>
        split at hcheck
        next => cases hcheck
        next hgiven => exact (if_neg hfits).trans (if_neg hgiven)

theorem delete_of_check {path : Path}
    (hcheck : (Event.delete path).check options schema = .ok ()) :
    map.delete schema path =
      match map.value? path with
      | none => (map, .ok (.noOp .absent))
      | some value => (map.erase path, .ok (.applied ⟨path, some value, none, none⟩)) := by
  rw [Event.check_delete] at hcheck
  rw [delete]
  cases hget : schema.get? path with
  | none =>
      simp only [hget] at hcheck
      cases hcheck
  | some descriptor => rfl

theorem staleness?_eq (map : LeafMap) (path : Path) (version : Option Version) :
    map.staleness? path version = (map.get? path).bind (·.refusal? version) := by
  rw [staleness?, version?]
  cases map.get? path with
  | none => cases version <;> rfl
  | some held =>
      obtain ⟨value, current⟩ := held
      rw [Option.bind_some, Option.bind_some]
      cases version with
      | none => cases current <;> rfl
      | some incoming => cases current <;> rfl

/-- A set that is not stale writes its value. -/
theorem revise_set {path : Path} {value : Value} {version : Option Version}
    (hfresh : map.staleness? path version = none) :
    (Event.set path value version).revise (map.get? path) =
      (some ⟨value, version <|> map.version? path⟩, (map.write path value version).2) := by
  rw [staleness?_eq] at hfresh
  rw [write, value?, version?]
  cases hget : map.get? path with
  | none => simp [Event.revise]
  | some held =>
      rw [hget, Option.bind_some] at hfresh
      rw [Event.revise_of_accepted hfresh]
      simp [Leaf.nextVersion]

/-- The map with this leaf, or none, at the path. -/
def assign (map : LeafMap) (path : Path) : Option Leaf → LeafMap
  | some leaf => map.insert path leaf
  | none => map.erase path

theorem get?_assign (map : LeafMap) (path other : Path) (next : Option Leaf) :
    (map.assign path next).get? other = if path = other then next else map.get? other := by
  cases next with
  | none => exact map.get?_erase path other
  | some leaf => exact map.get?_insert path other leaf

theorem assign_get? (map : LeafMap) (path : Path) : map.assign path (map.get? path) = map := by
  apply Dictionary.ext
  intro other
  rw [get?_assign]
  split
  next heq => rw [heq]
  next => rfl

/-- Where nothing is in its way, an admitted event puts what it makes of the leaf held. -/
theorem apply_of_clear {event : Event} (hcheck : event.check options schema = .ok ())
    (habove : map.above? event.path = none) :
    map.apply options schema false event =
      (map.assign event.path (event.revise (map.get? event.path)).1,
        .ok (event.revise (map.get? event.path)).2) := by
  cases event with
  | set path value version =>
      rw [Event.path] at *
      rw [apply, set_of_check hcheck, habove]
      simp only [Bool.false_eq_true, if_false]
      cases hstale : map.staleness? path version with
      | some reason =>
          rw [staleness?_eq] at hstale
          obtain ⟨leaf, hget, hrefusal⟩ := Option.bind_eq_some_iff.mp hstale
          rw [hget, Event.revise_of_refusal hrefusal, ← hget, assign_get?]
      | none =>
          rw [revise_set hstale]
          rfl
  | delete path =>
      rw [Event.path, apply, delete_of_check hcheck, value?]
      cases hget : map.get? path with
      | none =>
          have hsame := map.assign_get? path
          rw [hget] at hsame
          exact congrArg (·, Except.ok (Outcome.noOp .absent)) hsame.symm
      | some held => rfl

end LeafMap

namespace Store

variable {options : Options} {schema : Schema} {store : Store} {event : Event}

/-- Where its slot is not free, an admitted event does nothing to the flat map either. -/
theorem flat_apply_of_not_free (hcheck : event.check options schema = .ok ())
    (hslot : ∀ held, store.slot event.path ≠ .free held) :
    store.flat.apply options schema (store.isBranch event.path) event =
      (store.flat, (store.slot event.path).reply event) := by
  cases event with
  | set path value version =>
      rw [Event.path] at hslot ⊢
      rw [LeafMap.apply, LeafMap.set_of_check hcheck, above?_flat]
      cases h : store.slot path with
      | free held => exact absurd h (hslot held)
      | blocked blocking =>
          rw [slot_eq_blocked_iff.mp h]
          rfl
      | branch leaves =>
          obtain ⟨children, hnode, hcount, hway⟩ := node?_of_slot_branch h
          have hbranch : store.isBranch path = true := by rw [isBranch, hnode]
          rw [hway, hbranch, countBelow_flat hnode, hcount]
          rfl
  | delete path =>
      rw [Event.path] at hslot ⊢
      have hvalue : store.flat.value? path = none := by
        rw [LeafMap.value?, get?_flat_eq_held?]
        cases h : store.slot path with
        | free held => exact absurd h (hslot held)
        | blocked _ => rfl
        | branch _ => rfl
      rw [LeafMap.apply, LeafMap.delete_of_check hcheck, hvalue]
      cases h : store.slot path with
      | free held => exact absurd h (hslot held)
      | blocked _ => rfl
      | branch _ => rfl

/-- The flat map of a store with another leaf at a path is the old one with that leaf. -/
theorem get?_flat_after {after : Store} {path : Path} {held next : Option Leaf}
    (hslot : store.slot path = .free held)
    (hafter : after.layout =
      if next = held then store.layout else store.layout.assign path next) (other : Path) :
    after.flat.get? other = if path = other then next else store.flat.get? other := by
  by_cases hself : path = other
  · subst hself
    rw [if_pos rfl, get?_flat_eq_held?]
    split at hafter
    next hsame => rw [ext_layout hafter, hslot, Slot.held?, hsame]
    next => rw [slot_of_assign hafter, Slot.held?]
  · rw [if_neg hself]
    split at hafter
    next => rw [ext_layout hafter]
    next =>
      apply Option.ext
      intro leaf
      rw [get?_flat_eq_some_iff, get?_flat_eq_some_iff, hafter,
        Layout.assign_eq_leaf_iff (Ne.symm hself)]
      refine ⟨fun h => h.2, fun hleaf => ⟨?_, hleaf⟩⟩
      -- The slot is free, so no leaf lies above the path.
      intro hleads
      have habove : other.isAbove path = true := Path.isAbove_iff.mpr ⟨hleads, Ne.symm hself⟩
      have hblocker := blocker?_eq_some_iff.mpr ⟨habove, leaf, hleaf⟩
      rw [(slot_eq_free_iff.mp hslot).1] at hblocker
      cases hblocker

/-- Where its slot is free, an admitted event does to the flat map what it does to the store. -/
theorem flat_apply_of_free {held : Option Leaf} (hcheck : event.check options schema = .ok ())
    (hslot : store.slot event.path = .free held) :
    ∃ after, store.apply options schema event = .ok (after, (event.revise held).2) ∧
      store.flat.apply options schema (store.isBranch event.path) event =
        (after.flat, .ok (event.revise held).2) := by
  obtain ⟨after, happly, hlayout⟩ := apply_of_free hcheck hslot
  have hflat : after.flat = store.flat.assign event.path (event.revise held).1 := by
    apply Dictionary.ext
    intro other
    rw [get?_flat_after hslot hlayout, LeafMap.get?_assign]
  have hheld : store.flat.get? event.path = held := by
    rw [get?_flat_eq_held?, hslot, Slot.held?]
  have habove : store.flat.above? event.path = none := by
    rw [above?_flat, (slot_eq_free_iff.mp hslot).1]
  refine ⟨after, happly, ?_⟩
  rw [isBranch_of_slot_free hslot, LeafMap.apply_of_clear hcheck habove, hheld, hflat]

/-- Every event does to the flat map what it does to the store. -/
theorem flat_apply (options : Options) (schema : Schema) (store : Store) (event : Event) :
    store.flat.apply options schema (store.isBranch event.path) event =
      ((store.next options schema event).flat, store.answer options schema event) := by
  rw [next, answer]
  cases hcheck : event.check options schema with
  | error failure =>
      rw [apply_of_check_error hcheck, LeafMap.apply_of_check_error hcheck]
      rfl
  | ok _ =>
      by_cases hfree : ∃ held, store.slot event.path = .free held
      · obtain ⟨held, hslot⟩ := hfree
        obtain ⟨after, happly, hflat⟩ := flat_apply_of_free hcheck hslot
        rw [happly, hflat]
        rfl
      · have hslot : ∀ held, store.slot event.path ≠ .free held := by simpa using hfree
        rw [apply_of_not_free hcheck hslot, flat_apply_of_not_free hcheck hslot]
        cases (store.slot event.path).reply event <;> rfl

/-- The paths of the flat map above another path are one at most: a leaf has nothing below it. -/
theorem above?_flat_eq_some_iff {above path : Path} :
    store.flat.above? path = some above ↔
      above ∈ store.flat.keys ∧ above.isAbove path = true := by
  rw [above?_flat, blocker?_eq_some_iff, mem_keys_flat_iff, and_comm]

/-- The tree of the store refines the flat map of its leaves. The map holds what the tree holds,
above a path it has one leaf at most, and an event changes the map and is answered as if there were
no tree but for the branch that may stand at its path. -/
theorem apply_refines_flat (options : Options) (schema : Schema) (store : Store) (event : Event) :
    (∀ path, store.flat.get? path = store.leaf? path) ∧
      (∀ above, store.flat.above? event.path = some above ↔
        above ∈ store.flat.keys ∧ above.isAbove event.path = true) ∧
      (store.settle (store.apply options schema event)).1.flat =
        (store.flat.apply options schema (store.isBranch event.path) event).1 ∧
      (store.settle (store.apply options schema event)).2 =
        (store.flat.apply options schema (store.isBranch event.path) event).2 := by
  have hstep := store.flat_apply options schema event
  refine ⟨store.get?_flat, ?_, ?_, ?_⟩
  · intro above
    exact above?_flat_eq_some_iff
  · rw [hstep]
    rfl
  · rw [hstep]
    rfl

end Store

end PropertyTree
