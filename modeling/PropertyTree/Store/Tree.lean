import PropertyTree.Event.Basic
/-!
# The property tree

A node is a leaf, which holds a value and perhaps the version of its last write, or a branch. The
children of a branch are a keyed list, and `Node.Ordered` says that all of them in a tree stand in
order. A tree is walked by the segments of a path. Writing makes the branches it needs; erasing a
leaf takes along the branches that it leaves empty, and no others.
-/

namespace PropertyTree

/-- A stored value with the version of the write that it came from. -/
structure Leaf where
  value : Value
  version : Option Version
deriving DecidableEq

namespace Leaf

/-- The reason to refuse a write: it is older than the version held. A write without a version, or
to a leaf without one, is never refused. -/
def refusal? (held : Leaf) (incoming : Option Version) : Option NoOp :=
  match held.version, incoming with
  | some current, some incoming =>
    if incoming < current then some (.stale current incoming) else none
  | _, _ => none

/-- The version held after an admitted write. A write without a version keeps the one held, so that
later stale writes still lose. -/
def nextVersion (held : Leaf) (incoming : Option Version) : Option Version :=
  incoming <|> held.version

end Leaf

/-- A node of the property tree. -/
inductive Node where
  | leaf (held : Leaf)
  | branch (children : List (Segment × Node))

/-- The children of every branch stand in order. -/
inductive Node.Ordered : Node → Prop where
  | leaf (held : Leaf) : Ordered (.leaf held)
  | branch (children : List (Segment × Node)) (keys : Keyed.Ordered children)
      (below : ∀ child ∈ children, Ordered child.2) : Ordered (.branch children)

/-- The children of a branch, by their segments. -/
abbrev Tree := List (Segment × Node)

namespace Tree

/-- The tree is in order at every depth. -/
def Ordered (tree : Tree) : Prop := (Node.branch tree).Ordered

/-- The node at the end of a walk; the tree itself is the branch at the end of no steps. -/
def node? : List Segment → Tree → Option Node
  | [], tree => some (.branch tree)
  | step :: rest, tree =>
    match Keyed.find? step tree with
    | none => none
    | some (.leaf held) => if rest.isEmpty then some (.leaf held) else none
    | some (.branch children) => node? rest children

/-- The steps to a leaf that a walk meets before its end. -/
def blocker? : List Segment → Tree → Option (List Segment)
  | [], _ => none
  | step :: rest, tree =>
    match Keyed.find? step tree with
    | none => none
    | some (.leaf _) => if rest.isEmpty then none else some [step]
    | some (.branch children) => (blocker? rest children).map (step :: ·)

/-- A node that holds just one leaf, at the end of a walk. -/
def grow (leaf : Leaf) : List Segment → Node
  | [] => .leaf leaf
  | step :: rest => .branch [(step, grow leaf rest)]

/-- Puts a leaf at the end of a walk, in place of a leaf or of nothing. There is no such tree when
the walk meets a leaf before its end or ends at a branch. -/
def put? (leaf : Leaf) : List Segment → Tree → Option Tree
  | [], _ => none
  | step :: rest, tree =>
    let child? : Option Node :=
      match Keyed.find? step tree with
      | none => some (grow leaf rest)
      | some (.leaf _) => if rest.isEmpty then some (.leaf leaf) else none
      | some (.branch children) => (put? leaf rest children).map .branch
    child?.map fun child => Keyed.insert step child tree

/-- Takes the leaf at the end of a walk out of the tree, with the branches it leaves empty. -/
def erase? : List Segment → Tree → Option (Leaf × Tree)
  | [], _ => none
  | step :: rest, tree =>
    match Keyed.find? step tree with
    | none => none
    | some (.leaf held) => if rest.isEmpty then some (held, Keyed.erase step tree) else none
    | some (.branch children) =>
      (erase? rest children).map fun (held, children) =>
        (held, if children.isEmpty then Keyed.erase step tree
          else Keyed.insert step (.branch children) tree)

end Tree

mutual

/-- The leaves of the node at a path, in path order. -/
def Node.leaves (path : Path) : Node → List (Path × Leaf)
  | .leaf held => [(path, held)]
  | .branch children => Tree.leaves path.segments children

/-- The leaves of a tree below the given segments, in path order. -/
def Tree.leaves (above : List Segment) : List (Segment × Node) → List (Path × Leaf)
  | [] => []
  | (step, node) :: rest => node.leaves ⟨above ++ [step], by simp⟩ ++ Tree.leaves above rest

end

mutual

/-- The number of leaves of a node. -/
def Node.leafCount : Node → Nat
  | .leaf _ => 1
  | .branch children => Tree.leafCount children

/-- The number of leaves of a tree. -/
def Tree.leafCount : List (Segment × Node) → Nat
  | [] => 0
  | (_, node) :: rest => node.leafCount + Tree.leafCount rest

end

mutual

/-- The values of a node as JSON. -/
def Node.toJson : Node → Json
  | .leaf held => held.value.toJson
  | .branch children => .object (Tree.members children)

/-- The values of a tree as the members of a JSON object. -/
def Tree.members : List (Segment × Node) → List (String × Json)
  | [] => []
  | (step, node) :: rest => (step.text, node.toJson) :: Tree.members rest

end

namespace Node.Ordered

theorem children {children : List (Segment × Node)} (h : (Node.branch children).Ordered) :
    Keyed.Ordered children := by
  cases h
  assumption

theorem child {children : List (Segment × Node)} (h : (Node.branch children).Ordered)
    {entry : Segment × Node} (mem : entry ∈ children) : entry.2.Ordered := by
  cases h with
  | branch _ _ below => exact below entry mem

theorem found {tree : Tree} (h : tree.Ordered) {step : Segment} {node : Node}
    (found : Keyed.find? step tree = some node) : node.Ordered :=
  child h (Keyed.mem_of_find?_eq_some found)

theorem insert {tree : Tree} (h : tree.Ordered) {node : Node} (hn : node.Ordered)
    (step : Segment) : Tree.Ordered (Keyed.insert step node tree) :=
  .branch _ (h.children.insert step node) fun entry mem => by
    rcases Keyed.mem_insert_imp mem with rfl | mem
    · exact hn
    · exact child h mem

theorem erase {tree : Tree} (h : tree.Ordered) (step : Segment) :
    Tree.Ordered (Keyed.erase step tree) :=
  .branch _ (h.children.erase step) fun _ mem => child h (Keyed.mem_of_mem_erase mem)

theorem grow (leaf : Leaf) (steps : List Segment) : (Tree.grow leaf steps).Ordered := by
  induction steps with
  | nil => exact .leaf leaf
  | cons step rest ih =>
    refine .branch _ (List.pairwise_singleton _ _) fun entry mem => ?_
    obtain rfl := List.mem_singleton.mp mem
    exact ih

end Node.Ordered

namespace Tree

theorem ordered_nil : Ordered [] := .branch _ Keyed.ordered_nil nofun

theorem Ordered.put? {tree after : Tree} (h : tree.Ordered) {leaf : Leaf} {steps : List Segment}
    (put : put? leaf steps tree = some after) : after.Ordered := by
  induction steps generalizing tree after with
  | nil => cases put
  | cons step rest ih =>
    simp only [Tree.put?] at put
    obtain ⟨child, found, rfl⟩ := Option.map_eq_some_iff.mp put
    refine Node.Ordered.insert h ?_ step
    split at found
    next =>
      cases found
      exact .grow leaf rest
    next =>
      split at found
      next =>
        cases found
        exact .leaf leaf
      next => cases found
    next children hfind =>
      obtain ⟨grown, hgrown, rfl⟩ := Option.map_eq_some_iff.mp found
      exact ih (Node.Ordered.found h hfind) hgrown

theorem Ordered.erase? {tree after : Tree} (h : tree.Ordered) {held : Leaf}
    {steps : List Segment} (erased : erase? steps tree = some (held, after)) : after.Ordered := by
  induction steps generalizing tree after with
  | nil => cases erased
  | cons step rest ih =>
    simp only [Tree.erase?] at erased
    split at erased
    next => cases erased
    next =>
      split at erased
      next =>
        cases erased
        exact Node.Ordered.erase h step
      next => cases erased
    next children hfind =>
      obtain ⟨⟨leaf, below⟩, hbelow, e⟩ := Option.map_eq_some_iff.mp erased
      cases e
      have hb := ih (Node.Ordered.found h hfind) hbelow
      split
      next => exact Node.Ordered.erase h step
      next => exact Node.Ordered.insert h hb step

end Tree

end PropertyTree
