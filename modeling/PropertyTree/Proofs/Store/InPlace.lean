import PropertyTree.Proofs.Schema.PrefixFree
import PropertyTree.Proofs.Store.Held
import PropertyTree.Store.Snapshot

/-! # Writes in place

A write that changes the tree as it walks could break off halfway, or land on a branch and drop what
is below. `Tree.place` is that walk, with every way to end, and `Store.writeInPlace` has the checks
of a write before it. Once they have passed the walk ends at its leaf: a write in place does what
`Store.write` does, and what a set comes to is settled before it puts anything.
-/

namespace PropertyTree

/-- How a walk that puts a leaf comes to its end. -/
inductive Landing where
  /-- There was no step to take, and nothing was put. -/
  | nowhere
  /-- A leaf stood at this step, and it was not the last. -/
  | obstructed (step : Segment)
  /-- The leaf was put, in place of this node if there was one. -/
  | placed (replaced : Option Node)

namespace Tree

/-- Puts a leaf at the end of a walk, in place of whatever is there. Before the last step a branch
is made where there is nothing. Gives the tree as the walk leaves it, also where it breaks off. -/
def place (leaf : Leaf) : List Segment → Tree → Tree × Landing
  | [], tree => (tree, .nowhere)
  | [last], tree => (Keyed.insert last (.leaf leaf) tree, .placed (Keyed.find? last tree))
  | step :: next :: rest, tree =>
    match (Keyed.find? step tree).getD (.branch []) with
    | .leaf _ => (tree, .obstructed step)
    | .branch children =>
      let (below, landing) := place leaf (next :: rest) children
      (Keyed.insert step (.branch below) tree, landing)

/-- From an empty branch on, the walk makes all it needs. -/
theorem place_nil (leaf : Leaf) (step : Segment) (rest : List Segment) :
    place leaf (step :: rest) [] = ([(step, grow leaf rest)], .placed none) := by
  induction rest generalizing step with
  | nil => rfl
  | cons next rest ih =>
      rw [place, Keyed.find?_nil, Option.getD_none]
      simp only [ih]
      rfl

/-- Where a leaf can be put, the walk puts it, in place of a leaf or of nothing. -/
theorem place_of_put? {tree after : Tree} {leaf : Leaf} {steps : List Segment}
    (hput : tree.put? leaf steps = some after) :
    tree.place leaf steps = (after, .placed (tree.node? steps)) := by
  induction steps generalizing tree after with
  | nil => cases hput
  | cons step rest ih =>
      simp only [put?] at hput
      obtain ⟨child, hchild, rfl⟩ := Option.map_eq_some_iff.mp hput
      rw [node?]
      split at hchild
      next hfind =>
        cases hchild
        cases rest with
        | nil => rw [place, hfind, grow]
        | cons next rest =>
            rw [place, hfind, Option.getD_none]
            simp only [place_nil]
            rfl
      next held hfind =>
        split at hchild
        next hempty =>
          cases hchild
          obtain rfl := List.isEmpty_iff.mp hempty
          rw [place, hfind]
          rfl
        next => cases hchild
      next children hfind =>
        obtain ⟨below, hbelow, rfl⟩ := Option.map_eq_some_iff.mp hchild
        cases rest with
        | nil => cases hbelow
        | cons next rest =>
            rw [place, hfind, Option.getD_some]
            simp only [ih hbelow]

end Tree

/-- The leaf that an admitted event has to put at a slot, if it is another than the one held. -/
def Slot.puts? (event : Event) : Slot → Option Leaf
  | .free held => if (event.revise held).1 = held then none else (event.revise held).1
  | .blocked _ | .branch _ => none

namespace Store

/-- A write carried out in place. Gives the tree that is left behind with every answer. -/
def writeInPlace (store : Store) (path : Path) (leaf : Leaf) :
    Tree × Except WriteError (Option Leaf) :=
  match store.blocker? path with
  | some blocking => (store.tree, .error (.pathConflict path.dotted blocking.dotted))
  | none =>
    match store.node? path with
    | some (.branch children) =>
      (store.tree, .error (.branchConflict path.dotted (Tree.leafCount children)))
    | _ =>
      match store.tree.place leaf path.segments with
      | (after, .nowhere) => (after, .ok none)
      | (after, .obstructed step) => (after, .error (.pathConflict path.dotted step.text))
      | (after, .placed (some (.leaf replaced))) => (after, .ok (some replaced))
      | (after, .placed _) => (after, .ok none)

/-- The tree that is left behind by a write, and its answer. One that fails leaves the tree. -/
def leftBy (store : Store) :
    Except WriteError (Store × Option Leaf) → Tree × Except WriteError (Option Leaf)
  | .ok (after, replaced) => (after.tree, .ok replaced)
  | .error error => (store.tree, .error error)

/-- The tree after the walk that puts this leaf, if there is one to put. -/
def placing (store : Store) (path : Path) : Option Leaf → Tree
  | none => store.tree
  | some leaf => (store.tree.place leaf path.segments).1

variable {store : Store} {path : Path}

/-- Where the checks pass, the path holds a leaf or may hold one. -/
theorem slot_eq_free_of_checks (hway : store.blocker? path = none)
    (hend : ∀ children, store.node? path ≠ some (.branch children)) :
    store.slot path = .free (store.leaf? path) := by
  rw [slot_eq_free_iff_node?, leaf?]
  refine ⟨hway, ?_⟩
  cases hnode : store.node? path with
  | none => rfl
  | some node =>
      cases node with
      | leaf held => rfl
      | branch children => exact absurd hnode (hend children)

/-- At a free slot the walk ends at its leaf, and the write is what the walk does. -/
theorem place_of_slot_free {held : Option Leaf} (hslot : store.slot path = .free held)
    (leaf : Leaf) :
    ∃ after : Store,
      store.tree.place leaf path.segments = (after.tree, .placed (held.map .leaf)) ∧
      store.write path leaf = .ok (after, held) ∧
      after.layout = store.layout.assign path (some leaf) := by
  obtain ⟨hway, hnode⟩ := slot_eq_free_iff_node?.mp hslot
  obtain ⟨after, hwrite, hlayout⟩ := write_of_slot_free hslot leaf
  have hend : store.layout path ≠ .branch := by
    rw [layout_eq_ofNode?, hnode]
    cases held <;> simp [Site.ofNode?]
  obtain ⟨put, hput⟩ := exists_put? leaf hway hend
  obtain rfl : put = after := ext_layout ((layout_put? hput).trans hlayout.symm)
  refine ⟨put, ?_, hwrite, hlayout⟩
  rw [Tree.place_of_put? (tree_put?_of_put? hput)]
  exact congrArg (fun node => (put.tree, Landing.placed node)) hnode

/-- A write in place does what a write does, and leaves the tree when that fails. -/
theorem writeInPlace_eq (store : Store) (path : Path) (leaf : Leaf) :
    store.writeInPlace path leaf = store.leftBy (store.write path leaf) := by
  cases hslot : store.slot path with
  | blocked blocking =>
      rw [write_of_slot_blocked hslot, writeInPlace, slot_eq_blocked_iff.mp hslot]
      rfl
  | branch leaves =>
      obtain ⟨children, hnode, rfl, hway⟩ := node?_of_slot_branch hslot
      rw [write_of_slot_branch hslot, writeInPlace, hway, hnode]
      rfl
  | free held =>
      obtain ⟨hway, hnode⟩ := slot_eq_free_iff_node?.mp hslot
      obtain ⟨after, hplace, hwrite, _⟩ := place_of_slot_free hslot leaf
      rw [hwrite, writeInPlace, hway, hnode]
      cases held with
      | none =>
          simp only [Option.map_none] at hplace ⊢
          rw [hplace]
          rfl
      | some held =>
          simp only [Option.map_some] at hplace ⊢
          rw [hplace]
          rfl

/-- A path that holds a leaf takes any other. -/
theorem put_of_leaf? {held : Leaf} (hleaf : store.leaf? path = some held) (leaf : Leaf) :
    ∃ after, store.put path leaf = .ok (after, some held) := by
  have hslot := slot_eq_free_some_iff.mpr (leaf?_eq_some_iff.mp hleaf)
  obtain ⟨after, hwrite, _⟩ := write_of_slot_free hslot leaf
  refine ⟨after, ?_⟩
  rw [put, hwrite]
  rfl

/-- The walk for what a set puts at a free slot ends in the store that the set ends in. -/
theorem tree_eq_placing {after : Store} {held : Option Leaf} {value : Value}
    {version : Option Version} (hslot : store.slot path = .free held)
    (hlayout : after.layout = if ((Event.set path value version).revise held).1 = held
      then store.layout
      else store.layout.assign path ((Event.set path value version).revise held).1) :
    after.tree = store.placing path ((Slot.free held).puts? (.set path value version)) := by
  rw [Slot.puts?]
  split at hlayout
  next hsame => rw [if_pos hsame, ext_layout hlayout, placing]
  next hother =>
    rw [if_neg hother]
    have hsome : ((Event.set path value version).revise held).1.isSome :=
      Event.isSome_revise rfl held
    obtain ⟨leaf, hleaf⟩ := Option.isSome_iff_exists.mp hsome
    obtain ⟨put, hplace, _, hput⟩ := place_of_slot_free hslot leaf
    rw [hleaf] at hlayout
    rw [hleaf, placing, hplace, ext_layout (hlayout.trans hput.symm)]

/-- The result of a set is told from its slot, and the walk that follows is left to itself. -/
theorem apply_set_eq_placing (options : Options) (schema : Schema) (store : Store) (path : Path)
    (value : Value) (version : Option Version) :
    (store.apply options schema (.set path value version)).map (fun done => (done.1.tree, done.2)) =
      ((store.slot path).answer options schema (.set path value version)).map fun outcome =>
        (store.placing path ((store.slot path).puts? (.set path value version)), outcome) := by
  rw [Slot.answer]
  cases hcheck : (Event.set path value version).check options schema with
  | error failure =>
      rw [apply_of_check_error hcheck]
      rfl
  | ok _ =>
      by_cases hfree : ∃ held, store.slot path = .free held
      · obtain ⟨held, hslot⟩ := hfree
        obtain ⟨after, happly, hlayout⟩ := apply_of_free hcheck hslot
        rw [happly, hslot, ← tree_eq_placing hslot hlayout]
        rfl
      · have hslot : ∀ held, store.slot path ≠ .free held := fun held h => hfree ⟨held, h⟩
        rw [apply_of_not_free hcheck hslot, Event.path]
        cases h : store.slot path with
        | free held => exact absurd h (hslot held)
        | blocked _ => rfl
        | branch _ => rfl

/-- A write never breaks off once its checks have passed. The walk then meets no leaf on its way,
has a step to take, and puts the leaf in place of a leaf or of nothing. So a write in place is the
write, whose failures leave the tree as it is; a path that holds a leaf takes any other; and a set
comes to what is told by reading, before the walk that puts its leaf, if there is one to put. -/
theorem writes_never_break_off (store : Store) (path : Path) :
    (∀ leaf : Leaf, store.blocker? path = none →
      (∀ children, store.node? path ≠ some (.branch children)) →
      ∃ after : Store,
        store.tree.place leaf path.segments =
          (after.tree, .placed ((store.leaf? path).map .leaf)) ∧
        store.write path leaf = .ok (after, store.leaf? path)) ∧
    (∀ leaf : Leaf, store.writeInPlace path leaf = store.leftBy (store.write path leaf)) ∧
    (∀ held leaf : Leaf, store.leaf? path = some held →
      ∃ after, store.put path leaf = .ok (after, some held)) ∧
    ∀ (options : Options) (schema : Schema) (value : Value) (version : Option Version),
      let event := Event.set path value version
      (store.apply options schema event).map (fun done => (done.1.tree, done.2)) =
        ((store.slot path).answer options schema event).map fun outcome =>
          (store.placing path ((store.slot path).puts? event), outcome) := by
  refine ⟨fun leaf hway hend => ?_, store.writeInPlace_eq path, fun held leaf hleaf =>
    put_of_leaf? hleaf leaf, fun options schema => apply_set_eq_placing options schema store path⟩
  obtain ⟨after, hplace, hwrite, _⟩ :=
    place_of_slot_free (slot_eq_free_of_checks hway hend) leaf
  exact ⟨after, hplace, hwrite⟩

/-- A lamp that is on by a snapshot. Two branches are made on the way to a level, and an event that
finds the lamp on gives the leaf its version. -/
theorem writes_never_break_off_lamp :
    let on : Leaf := ⟨.bool true, none⟩
    let store := (Store.empty.bulkLoad [("lamp", .object [("on", .bool true)])]).1
    let level : Path := ⟨Path.lampDim.segments ++ Path.lampDim.segments, by decide⟩
    let switchOn : Event := .set .lampOn (.bool true) (some ⟨3⟩)
    store.blocker? level = none ∧ (∀ children, store.node? level ≠ some (.branch children)) ∧
      (∃ after : Store, store.tree.place on level.segments = (after.tree, .placed none) ∧
        store.write level on = .ok (after, none)) ∧
      store.leaf? .lampOn = some on ∧
      (∃ after, store.put .lampOn ⟨.bool true, some ⟨3⟩⟩ = .ok (after, some on)) ∧
      (store.apply ⟨true⟩ .lamp switchOn).map (fun done => (done.1.tree, done.2)) =
        .ok (store.placing .lampOn (some ⟨.bool true, some ⟨3⟩⟩), .noOp .unchanged) := by
  intro on store level switchOn
  obtain ⟨hwrite, _, _, _⟩ := writes_never_break_off store level
  obtain ⟨_, _, hput, hset⟩ := writes_never_break_off store .lampOn
  have hway : store.blocker? level = none := rfl
  have hnone : store.node? level = none := rfl
  have hend : ∀ children, store.node? level ≠ some (.branch children) := by
    intro children hbranch
    rw [hnone] at hbranch
    cases hbranch
  have hleaf : store.leaf? .lampOn = some on := rfl
  exact ⟨hway, hend, hwrite on hway hend, hleaf, hput on _ hleaf,
    (hset ⟨true⟩ .lamp (.bool true) (some ⟨3⟩)).trans rfl⟩

/-- Without the checks a walk would break off below a leaf. -/
example (leaf : Leaf) :
    (Tree.place leaf Path.lampOn.segments [(⟨"lamp", by decide, by decide⟩, .leaf leaf)]).2 =
      .obstructed ⟨"lamp", by decide, by decide⟩ := rfl

end Store

end PropertyTree
