import PropertyTree.Proofs.Schema.Defaults
import PropertyTree.Proofs.Store.LeafOrder
import PropertyTree.Proofs.Store.Run

/-! # Stores as flat maps

A flat map gives a leaf to some of the paths and has no branches. `LeafMap.apply` says what an event
does to such a map, by look-ups and by what lies above and below its path alone. A store is read as
the flat map of its leaves, and every event does to this map what it does to the tree: only where a
branch stands has to be told, since an empty one leaves no trace among the leaves.
-/

namespace PropertyTree

/-- Leaves by their paths. -/
abbrev LeafMap := Dictionary Path Leaf

namespace LeafMap

/-- The first path of the map that lies above the given one. -/
def above? (map : LeafMap) (path : Path) : Option Path :=
  map.keys.find? fun other => other.isAbove path

/-- The number of paths of the map that lie below the given one. -/
def countBelow (map : LeafMap) (path : Path) : Nat :=
  map.keys.countP fun other => path.isAbove other

def value? (map : LeafMap) (path : Path) : Option Value := (map.get? path).map (·.value)

def version? (map : LeafMap) (path : Path) : Option Version := (map.get? path).bind (·.version)

/-- The map holds a version at the path that is strictly greater than the incoming one. -/
def staleness? (map : LeafMap) (path : Path) (incoming : Option Version) : Option NoOp := do
  let incoming ← incoming
  let current ← map.version? path
  if incoming < current then some (.stale current incoming) else none

/-- Gives a path a value, with the incoming version or else the one held. -/
def write (map : LeafMap) (path : Path) (value : Value) (incoming : Option Version) :
    LeafMap × Outcome :=
  let version := incoming <|> map.version? path
  (map.insert path ⟨value, version⟩,
    if map.value? path = some value then .noOp .unchanged
    else .applied ⟨path, map.value? path, some value, version⟩)

variable (options : Options) (schema : Schema) (isBranch : Bool)

/-- What a set does, given whether its path is a branch. The first check that fails decides. -/
def set (map : LeafMap) (path : Path) (value : Value) (incoming : Option Version) :
    LeafMap × Except Failure Outcome :=
  match schema.get? path with
  | none => (map, .error (.schema (.unknownProperty path.dotted)))
  | some descriptor =>
    if descriptor.kind.accepts value = false then
      (map, .error
        (.schema (.typeMismatch path.dotted descriptor.kind.display value.display)))
    else if incoming = none ∧ options.rejectUnversioned = true then
      (map, .error (.write (.unversionedWrite path.dotted)))
    else
      match map.above? path with
      | some blocking => (map, .error (.write (.pathConflict path.dotted blocking.dotted)))
      | none =>
        if isBranch then
          (map, .error (.write (.branchConflict path.dotted (map.countBelow path))))
        else
          match map.staleness? path incoming with
          | some reason => (map, .ok (.noOp reason))
          | none => ((map.write path value incoming).1, .ok (map.write path value incoming).2)

/-- What a delete does. -/
def delete (map : LeafMap) (path : Path) : LeafMap × Except Failure Outcome :=
  match schema.get? path with
  | none => (map, .error (.schema (.unknownProperty path.dotted)))
  | some _ =>
    match map.value? path with
    | none => (map, .ok (.noOp .absent))
    | some value => (map.erase path, .ok (.applied ⟨path, some value, none, none⟩))

/-- What an event does, given whether its path is a branch. -/
def apply (map : LeafMap) : Event → LeafMap × Except Failure Outcome
  | .set path value incoming => map.set options schema isBranch path value incoming
  | .delete path => map.delete schema path

/-- A set that does not pass every check leaves the map and reports no change. -/
theorem set_cases (map : LeafMap) (path : Path) (value : Value) (incoming : Option Version) :
    (∃ result, map.set options schema isBranch path value incoming = (map, result) ∧
      Report.change? result = none) ∨
    ¬ (incoming = none ∧ options.rejectUnversioned = true) ∧
      map.staleness? path incoming = none ∧
      map.set options schema isBranch path value incoming =
        ((map.write path value incoming).1, .ok (map.write path value incoming).2) := by
  rw [set]
  split
  next => exact Or.inl ⟨_, rfl, rfl⟩
  next =>
    split
    next => exact Or.inl ⟨_, rfl, rfl⟩
    next =>
      split
      next => exact Or.inl ⟨_, rfl, rfl⟩
      next hversioned =>
        split
        next => exact Or.inl ⟨_, rfl, rfl⟩
        next =>
          split
          next => exact Or.inl ⟨_, rfl, rfl⟩
          next =>
            split
            next => exact Or.inl ⟨_, rfl, rfl⟩
            next hfresh => exact Or.inr ⟨hversioned, hfresh, rfl⟩

end LeafMap

theorem Event.check_set (options : Options) (schema : Schema) (path : Path) (value : Value)
    (version : Option Version) :
    (Event.set path value version).check options schema =
      match schema.get? path with
      | none => .error (.schema (.unknownProperty path.dotted))
      | some descriptor =>
          if descriptor.kind.accepts value = false then
            .error (.schema (.typeMismatch path.dotted descriptor.kind.display value.display))
          else if version = none ∧ options.rejectUnversioned = true then
            .error (.write (.unversionedWrite path.dotted))
          else .ok () := by
  rw [check]
  cases hget : schema.get? path with
  | none =>
      rw [Schema.check, Schema.lookup, hget]
      rfl
  | some descriptor =>
      rw [Schema.check_of_get?_some hget]
      cases haccepts : descriptor.kind.accepts value with
      | false => simp only [haccepts]; rfl
      | true =>
          change (if (version.isNone && options.rejectUnversioned) = true then
            Except.error (Failure.write (.unversionedWrite path.dotted)) else .ok ()) = _
          simp [haccepts]

theorem Event.check_delete (options : Options) (schema : Schema) (path : Path) :
    (Event.delete path).check options schema =
      match schema.get? path with
      | none => .error (.schema (.unknownProperty path.dotted))
      | some _ => .ok () := by
  rw [check, Schema.lookup]
  cases schema.get? path <;> rfl

namespace Store

/-- The leaves of the store by their paths. -/
def flat (store : Store) : LeafMap := ⟨store.leaves, store.ordered_leaves⟩

/-- A branch, empty or not, stands at the path. -/
def isBranch (store : Store) (path : Path) : Bool :=
  match store.node? path with
  | some (.branch _) => true
  | some (.leaf _) | none => false

theorem get?_flat_eq_some_iff {store : Store} {path : Path} {held : Leaf} :
    store.flat.get? path = some held ↔ store.layout path = .leaf held := by
  rw [Dictionary.get?_eq_some_iff]
  exact mem_leaves_iff

theorem get?_flat_eq_held? (store : Store) (path : Path) :
    store.flat.get? path = (store.slot path).held? := by
  apply Option.ext
  intro held
  rw [get?_flat_eq_some_iff, ← slot_eq_free_some_iff]
  cases store.slot path <;> simp [Slot.held?]

theorem get?_flat (store : Store) (path : Path) : store.flat.get? path = store.leaf? path := by
  rw [get?_flat_eq_held?, leaf?_eq_held?]

theorem mem_keys_flat_iff {store : Store} {path : Path} :
    path ∈ store.flat.keys ↔ ∃ held, store.layout path = .leaf held := by
  simp only [Dictionary.mem_keys_iff, get?_flat_eq_some_iff]

theorem blocker?_of_mem_keys_flat {store : Store} {above path : Path}
    (hmem : above ∈ store.flat.keys) (habove : above.isAbove path = true) :
    store.blocker? path = some above :=
  blocker?_eq_some_iff.mpr ⟨habove, mem_keys_flat_iff.mp hmem⟩

/-- The path of the map above another one is the leaf that blocks it. -/
theorem above?_flat (store : Store) (path : Path) :
    store.flat.above? path = store.blocker? path := by
  rw [LeafMap.above?]
  cases hfind : store.flat.keys.find? (fun other => other.isAbove path) with
  | some above =>
      have habove : above.isAbove path = true := by simpa using List.find?_some hfind
      exact (blocker?_of_mem_keys_flat (List.mem_of_find?_eq_some hfind) habove).symm
  | none =>
      apply Eq.symm
      rw [Option.eq_none_iff_forall_ne_some]
      intro blocking hblocking
      obtain ⟨habove, hleaf⟩ := blocker?_eq_some_iff.mp hblocking
      have hnot := List.find?_eq_none.mp hfind blocking (mem_keys_flat_iff.mpr hleaf)
      exact hnot habove

/-- A branch has as many leaves as there are paths of the map below it. -/
theorem countBelow_flat {store : Store} {path : Path} {children : Tree}
    (hnode : store.node? path = some (.branch children)) :
    store.flat.countBelow path = Tree.leafCount children := by
  rw [LeafMap.countBelow, Dictionary.keys, List.countP_map, List.countP_eq_length_filter,
    ← Tree.length_leaves path.segments children, ← leaves_below hnode]
  rfl

theorem isBranch_of_slot_free {store : Store} {path : Path} {held : Option Leaf}
    (hslot : store.slot path = .free held) : store.isBranch path = false := by
  have hlayout := (slot_eq_free_iff.mp hslot).2
  rw [layout_eq_ofNode?] at hlayout
  rw [isBranch]
  split
  next children hnode =>
    rw [hnode] at hlayout
    cases held <;> cases hlayout
  next => rfl
  next => rfl

end Store

end PropertyTree
