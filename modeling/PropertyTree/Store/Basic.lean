import PropertyTree.Store.Tree
/-!
# The property store

A store is an ordered property tree. Its reads give copies of what it holds: the leaf at a path, the
part of the tree at a path, all leaves in path order. A write is decided before anything changes: it
fails when a leaf lies above the path, or when the path holds a branch.
-/

namespace PropertyTree

/-- The property tree of one session. -/
structure Store where
  tree : Tree
  ordered : tree.Ordered

namespace Store

/-- The store without nodes. -/
def empty : Store := ⟨[], Tree.ordered_nil⟩

/-- The node at a path. -/
def node? (store : Store) (path : Path) : Option Node := store.tree.node? path.segments

/-- The leaf at a path. -/
def leaf? (store : Store) (path : Path) : Option Leaf :=
  match store.node? path with
  | some (.leaf held) => some held
  | _ => none

/-- The value at a path; a branch has none. -/
def get? (store : Store) (path : Path) : Option Value := (store.leaf? path).map (·.value)

/-- The version held at a path. -/
def version? (store : Store) (path : Path) : Option Version :=
  (store.leaf? path).bind (·.version)

/-- There is a leaf at the path. -/
def contains (store : Store) (path : Path) : Bool := (store.leaf? path).isSome

/-- The leaf or the branch at a path as JSON. -/
def subtree? (store : Store) (path : Path) : Option Json := (store.node? path).map Node.toJson

/-- The whole tree as JSON. -/
def toJson (store : Store) : Json := .object (Tree.members store.tree)

/-- All leaves, in path order. -/
def leaves (store : Store) : List (Path × Leaf) := Tree.leaves [] store.tree

/-- The number of leaves. -/
def leafCount (store : Store) : Nat := Tree.leafCount store.tree

/-- The store has no nodes, not even empty branches. -/
def isEmpty (store : Store) : Bool := store.tree.isEmpty

/-- Drops all contents. -/
def clear (_ : Store) : Store := .empty

/-- The leaf above a path that keeps the path from holding anything. -/
def blocker? (store : Store) (path : Path) : Option Path :=
  (store.tree.blocker? path.segments).bind Path.ofSegments?

/-- The store with a leaf put at the path, if no node is in the way. -/
def put? (store : Store) (path : Path) (leaf : Leaf) : Option Store :=
  match h : store.tree.put? leaf path.segments with
  | some tree => some ⟨tree, store.ordered.put? h⟩
  | none => none

/-- Writes a leaf and gives the one that it replaces. Once the two checks have passed, no node is in
the way. -/
def write (store : Store) (path : Path) (leaf : Leaf) :
    Except WriteError (Store × Option Leaf) :=
  match store.blocker? path with
  | some blocking => .error (.pathConflict path.dotted blocking.dotted)
  | none =>
    match store.node? path with
    | some (.branch children) =>
      .error (.branchConflict path.dotted (Tree.leafCount children))
    | _ =>
      match store.put? path leaf with
      | some after => .ok (after, store.leaf? path)
      | none => .error (.pathConflict path.dotted path.dotted)

/-- Takes out the leaf at a path, with the branches it leaves empty. -/
def erase? (store : Store) (path : Path) : Option (Leaf × Store) :=
  match h : store.tree.erase? path.segments with
  | some (held, tree) => some (held, ⟨tree, store.ordered.erase? h⟩)
  | none => none

end Store

end PropertyTree
