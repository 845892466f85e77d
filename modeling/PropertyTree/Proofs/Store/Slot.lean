import PropertyTree.Proofs.Store.Layout
import PropertyTree.Store.Apply

/-! # What an event sees of a store

An event reads one slot of the store, that of its path, and its result is a function of this slot.
When the slot is free, the event makes one held leaf out of another and the store is assigned it;
otherwise the store stays. All that is said of events further on is derived from these two facts.
-/

namespace PropertyTree

/-- What a path has to offer to an event. -/
inductive Slot where
  /-- A leaf stands above the path. -/
  | blocked (blocking : Path)
  /-- The path ends at a branch with this many leaves. -/
  | branch (leaves : Nat)
  /-- The path holds a leaf or may hold one. -/
  | free (held : Option Leaf)
deriving DecidableEq

/-- The leaf that a slot holds. -/
def Slot.held? : Slot → Option Leaf
  | .free held => held
  | .blocked _ | .branch _ => none

namespace Store

/-- What a path of the store has to offer to an event. -/
def slot (store : Store) (path : Path) : Slot :=
  match store.blocker? path with
  | some blocking => .blocked blocking
  | none =>
      match store.node? path with
      | some (.branch children) => .branch (Tree.leafCount children)
      | some (.leaf held) => .free (some held)
      | none => .free none

theorem blocker?_eq_none {store : Store} {path : Path} (hthere : store.layout path ≠ .vacant) :
    store.blocker? path = none := by
  refine Option.eq_none_iff_forall_ne_some.mpr fun blocking hblocking => ?_
  obtain ⟨habove, held, hleaf⟩ := blocker?_eq_some_iff.mp hblocking
  obtain ⟨hleads, hne⟩ := Path.isAbove_iff.mp habove
  rw [store.layout_above hleads hne hthere] at hleaf
  cases hleaf

theorem slot_eq_blocked_iff {store : Store} {path blocking : Path} :
    store.slot path = .blocked blocking ↔ store.blocker? path = some blocking := by
  rw [slot]
  cases store.blocker? path with
  | some other => simp
  | none =>
      cases store.node? path with
      | none => simp
      | some node => cases node <;> simp

theorem slot_eq_free_iff {store : Store} {path : Path} {held : Option Leaf} :
    store.slot path = .free held ↔
      store.blocker? path = none ∧ store.layout path = .ofLeaf? held := by
  rw [slot, layout_eq_ofNode?]
  cases store.blocker? path with
  | some blocking => simp
  | none =>
      cases store.node? path with
      | none => cases held <;> simp [Site.ofNode?, Site.ofLeaf?]
      | some node => cases node <;> cases held <;> simp [Site.ofNode?, Site.ofLeaf?]

theorem slot_eq_free_iff_node? {store : Store} {path : Path} {held : Option Leaf} :
    store.slot path = .free held ↔
      store.blocker? path = none ∧ store.node? path = held.map .leaf := by
  rw [slot]
  cases store.blocker? path with
  | some blocking => simp
  | none =>
      cases store.node? path with
      | none => cases held <;> simp
      | some node => cases node <;> cases held <;> simp

theorem slot_eq_free_some_iff {store : Store} {path : Path} {held : Leaf} :
    store.slot path = .free (some held) ↔ store.layout path = .leaf held := by
  rw [slot_eq_free_iff]
  constructor
  · exact fun h => h.2
  · intro hleaf
    exact ⟨blocker?_eq_none (by rw [hleaf]; exact Site.leaf_ne_vacant held), hleaf⟩

theorem node?_of_slot_branch {store : Store} {path : Path} {leaves : Nat}
    (hslot : store.slot path = .branch leaves) :
    ∃ children, store.node? path = some (.branch children) ∧
      Tree.leafCount children = leaves ∧ store.blocker? path = none := by
  rw [slot] at hslot
  split at hslot
  next => cases hslot
  next hway =>
    split at hslot
    next children hnode =>
      cases hslot
      exact ⟨children, hnode, rfl, hway⟩
    next => cases hslot
    next => cases hslot

theorem leaf?_eq_some_iff {store : Store} {path : Path} {held : Leaf} :
    store.leaf? path = some held ↔ store.layout path = .leaf held := by
  rw [leaf?, layout_eq_ofNode?]
  cases store.node? path with
  | none => simp [Site.ofNode?]
  | some node => cases node <;> simp [Site.ofNode?]

/-- A leaf is held exactly where the slot holds it. -/
theorem leaf?_eq_held? (store : Store) (path : Path) :
    store.leaf? path = (store.slot path).held? := by
  refine Option.ext fun held => ?_
  rw [leaf?_eq_some_iff, ← slot_eq_free_some_iff]
  cases store.slot path <;> simp [Slot.held?]

theorem write_of_slot_blocked {store : Store} {path blocking : Path}
    (hslot : store.slot path = .blocked blocking) (leaf : Leaf) :
    store.write path leaf = .error (.pathConflict path.dotted blocking.dotted) := by
  rw [write, slot_eq_blocked_iff.mp hslot]

theorem write_of_slot_branch {store : Store} {path : Path} {leaves : Nat}
    (hslot : store.slot path = .branch leaves) (leaf : Leaf) :
    store.write path leaf = .error (.branchConflict path.dotted leaves) := by
  obtain ⟨children, hnode, rfl, hway⟩ := node?_of_slot_branch hslot
  rw [write, hway, hnode]

theorem exists_put? {store : Store} {path : Path} (leaf : Leaf)
    (hway : store.blocker? path = none) (hend : store.layout path ≠ .branch) :
    ∃ after, store.put? path leaf = some after := by
  have htree : store.tree.blocker? path.segments = none := by
    refine Option.eq_none_iff_forall_ne_some.mpr fun above habove => ?_
    obtain ⟨hlead, hne, held, hleaf⟩ := Tree.blocker?_eq_some_iff.mp habove
    -- The root is no leaf, so what is in the way is a path.
    have hnonempty : above ≠ [] := by
      rintro rfl
      cases hleaf
    have hblocking : store.blocker? path = some ⟨above, hnonempty⟩ := by
      rw [blocker?_eq_some_iff, Path.isAbove_iff]
      refine ⟨⟨hlead, ?_⟩, held, hleaf⟩
      rintro rfl
      exact hne rfl
    rw [hway] at hblocking
    cases hblocking
  obtain ⟨tree, hput⟩ := Tree.exists_put? leaf path.nonempty htree hend
  unfold put?
  split
  next after _ => exact ⟨_, rfl⟩
  next hnone =>
    rw [hput] at hnone
    cases hnone

/-- A write to a free slot is done, and assigns the leaf to the path. -/
theorem write_of_slot_free {store : Store} {path : Path} {held : Option Leaf}
    (hslot : store.slot path = .free held) (leaf : Leaf) :
    ∃ after, store.write path leaf = .ok (after, held) ∧
      after.layout = store.layout.assign path (some leaf) := by
  obtain ⟨hway, hend⟩ := slot_eq_free_iff.mp hslot
  have hbranch : store.layout path ≠ .branch := by
    rw [hend]
    cases held <;> simp [Site.ofLeaf?]
  obtain ⟨after, hput⟩ := exists_put? leaf hway hbranch
  refine ⟨after, ?_, layout_put? hput⟩
  have hheld : store.leaf? path = held := by rw [leaf?_eq_held?, hslot, Slot.held?]
  rw [layout_eq_ofNode?] at hbranch
  rw [write, hway]
  cases hnode : store.node? path with
  | none => simp only [hput, hheld]
  | some node =>
      rw [hnode] at hbranch
      cases node with
      | leaf other => simp only [hput, hheld]
      | branch _ => exact absurd rfl hbranch

/-- A leaf that is held can be erased, which assigns nothing to its path. -/
theorem erase?_of_held {store : Store} {path : Path} {held : Leaf}
    (hslot : store.slot path = .free (some held)) :
    ∃ after, store.erase? path = some (held, after) ∧
      after.layout = store.layout.assign path none := by
  obtain ⟨tree, hleaf⟩ := Tree.exists_erase? (slot_eq_free_some_iff.mp hslot)
  have herase : ∃ after, store.erase? path = some (held, after) := by
    unfold erase?
    split
    next other after hother =>
      rw [hleaf] at hother
      cases hother
      exact ⟨_, rfl⟩
    next hnone =>
      rw [hleaf] at hnone
      cases hnone
  obtain ⟨after, herase⟩ := herase
  exact ⟨after, herase, layout_erase? herase⟩

theorem erase?_of_not_held {store : Store} {path : Path}
    (hslot : (store.slot path).held? = none) : store.erase? path = none := by
  unfold erase?
  split
  next held after herase =>
    have hheld := slot_eq_free_some_iff.mpr (Tree.site_of_erase? herase)
    rw [hheld] at hslot
    cases hslot
  next => rfl

end Store

end PropertyTree
