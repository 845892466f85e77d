import PropertyTree.Store.Basic
/-!
# Snapshots

A snapshot is a JSON object: objects in it become branches, empty ones included, and scalars become
leaves without a version. Its first fault in depth-first key order decides the error.
-/

namespace PropertyTree

namespace Snapshot

/-- The dotted text of steps from the root. -/
def dotted (steps : List Segment) : String := joinDots (steps.map (·.text))

mutual

/-- The node of a snapshot at the given steps. -/
def node (here : List Segment) : Json → Except SnapshotError Node
  | .object members => (tree here members).map .branch
  | scalar =>
    match Value.ofJson? scalar with
    | some value => .ok (.leaf ⟨value, none⟩)
    | none => .error (.nonScalarLeaf (dotted here))

/-- The tree of the members of an object at the given steps. -/
def tree (here : List Segment) : List (String × Json) → Except SnapshotError Tree
  | [] => .ok []
  | (key, value) :: rest =>
    match Segment.ofText? key with
    | none => .error (.invalidKey (dotted here) key)
    | some step => do
      let first ← node (here ++ [step]) value
      let others ← tree here rest
      .ok (Keyed.insert step first others)

end

mutual

theorem ordered_node {here : List Segment} {json : Json} {result : Node}
    (h : node here json = .ok result) : result.Ordered := by
  cases json with
  | object members =>
    rw [node] at h
    cases ht : tree here members with
    | error e => simp [ht, Except.map] at h
    | ok children =>
      simp only [ht, Except.map, Except.ok.injEq] at h
      exact h ▸ ordered_tree ht
  | null | bool _ | number _ | string _ | array _ =>
    rw [node] at h
    split at h
    next =>
      cases h
      exact .leaf _
    next => cases h
    nofun

theorem ordered_tree {here : List Segment} {members : List (String × Json)} {result : Tree}
    (h : tree here members = .ok result) : result.Ordered := by
  cases members with
  | nil =>
    rw [tree] at h
    cases h
    exact Tree.ordered_nil
  | cons member rest =>
    obtain ⟨key, value⟩ := member
    rw [tree] at h
    split at h
    next => cases h
    next step _ =>
      cases hn : node (here ++ [step]) value with
      | error e => simp [hn, bind, Except.bind] at h
      | ok first =>
        cases ht : tree here rest with
        | error e => simp [hn, ht, bind, Except.bind] at h
        | ok others =>
          simp only [hn, ht, bind, Except.bind, Except.ok.injEq] at h
          exact h ▸ Node.Ordered.insert (ordered_tree ht) (ordered_node hn) step

end

end Snapshot

/-- The store that a snapshot describes. -/
def Store.ofSnapshot (members : List (String × Json)) : Except SnapshotError Store :=
  match h : Snapshot.tree [] members with
  | .ok tree => .ok ⟨tree, Snapshot.ordered_tree h⟩
  | .error error => .error error

/-- Replaces the contents of a store by a snapshot and gives its number of leaves. A snapshot with a
fault leaves the store as it is. -/
def Store.bulkLoad (store : Store) (members : List (String × Json)) :
    Store × Except SnapshotError Nat :=
  match ofSnapshot members with
  | .ok loaded => (loaded, .ok loaded.leafCount)
  | .error error => (store, .error error)

end PropertyTree
