import PropertyTree.Proofs.Store.Layout

/-! # The list of leaves

The leaves of a store are the paths whose site is a leaf, and the number of leaves counts them. A
branch without leaves is therefore one that no leaf lies below, empty or not.
-/

namespace PropertyTree

mutual

theorem Node.length_leaves (path : Path) (node : Node) :
    (node.leaves path).length = node.leafCount := by
  cases node with
  | leaf held => rfl
  | branch children => exact Tree.length_leaves path.segments children

theorem Tree.length_leaves (above : List Segment) (tree : List (Segment × Node)) :
    (Tree.leaves above tree).length = Tree.leafCount tree := by
  cases tree with
  | nil => rfl
  | cons entry rest =>
      obtain ⟨step, node⟩ := entry
      rw [Tree.leaves, Tree.leafCount, List.length_append, Node.length_leaves,
        Tree.length_leaves above rest]

end

mutual

/-- A node without leaves is a branch, and an empty one is found in it. -/
theorem Node.exists_empty {node : Node} (hcount : node.leafCount = 0) :
    ∃ children steps, node = .branch children ∧ Tree.node? steps children = some (.branch []) := by
  cases node with
  | leaf held => cases hcount
  | branch children =>
      obtain ⟨steps, hsteps⟩ := Tree.exists_empty hcount
      exact ⟨children, steps, rfl, hsteps⟩

theorem Tree.exists_empty {tree : List (Segment × Node)} (hcount : Tree.leafCount tree = 0) :
    ∃ steps, Tree.node? steps tree = some (.branch []) := by
  cases tree with
  | nil => exact ⟨[], rfl⟩
  | cons entry rest =>
      obtain ⟨step, node⟩ := entry
      obtain ⟨hfirst, _⟩ := Nat.add_eq_zero_iff.mp hcount
      obtain ⟨children, steps, rfl, hsteps⟩ := Node.exists_empty hfirst
      refine ⟨step :: steps, ?_⟩
      rw [Tree.node?, Keyed.find?_cons, if_pos rfl]
      exact hsteps

end

/-- The leaves of a node are the walks from it that end at a leaf. -/
def Node.ListsWalks (node : Node) : Prop :=
  ∀ (here path : Path) (held : Leaf), (path, held) ∈ node.leaves here ↔
    ∃ rest, path.segments = here.segments ++ rest ∧ node.site rest = .leaf held

theorem Tree.mem_leaves {tree : List (Segment × Node)} {above : List Segment} {path : Path}
    {held : Leaf} :
    (path, held) ∈ Tree.leaves above tree ↔
      ∃ entry ∈ tree, (path, held) ∈ entry.2.leaves ⟨above ++ [entry.1], by simp⟩ := by
  induction tree with
  | nil => simp [Tree.leaves]
  | cons entry rest ih =>
      obtain ⟨step, node⟩ := entry
      rw [Tree.leaves, List.mem_append, ih]
      simp

/-- A walk through a tree begins at one of its children. -/
theorem Tree.mem_leaves_of_listsWalks {tree : List (Segment × Node)} (hkeys : Keyed.Ordered tree)
    (hbelow : ∀ entry ∈ tree, entry.2.ListsWalks) {above : List Segment} {path : Path}
    {held : Leaf} :
    (path, held) ∈ Tree.leaves above tree ↔
      ∃ rest, path.segments = above ++ rest ∧ (Node.branch tree).site rest = .leaf held := by
  rw [Tree.mem_leaves]
  constructor
  · rintro ⟨⟨step, child⟩, hmem, hleaf⟩
    obtain ⟨rest, hpath, hsite⟩ := (hbelow _ hmem _ path held).mp hleaf
    refine ⟨step :: rest, by simpa using hpath, ?_⟩
    rwa [Node.site_branch_of_find? (hkeys.find?_eq_some_iff.mpr hmem)]
  · rintro ⟨rest, hpath, hsite⟩
    cases rest with
    | nil => cases hsite
    | cons step rest =>
        rw [Node.site_branch_cons] at hsite
        cases hfind : Keyed.find? step tree with
        | none =>
            rw [hfind] at hsite
            cases hsite
        | some child =>
            rw [hfind] at hsite
            have hmem := Keyed.mem_of_find?_eq_some hfind
            refine ⟨(step, child), hmem, (hbelow _ hmem _ path held).mpr ⟨rest, ?_, hsite⟩⟩
            simpa using hpath

theorem Node.listsWalks {node : Node} (hordered : node.Ordered) : node.ListsWalks := by
  induction hordered with
  | leaf other =>
      intro here path held
      constructor
      · intro hmem
        obtain ⟨rfl, rfl⟩ := Prod.mk.inj (List.mem_singleton.mp hmem)
        exact ⟨[], by simp, rfl⟩
      · rintro ⟨rest, hpath, hsite⟩
        cases rest with
        | nil =>
            cases hsite
            rw [List.append_nil] at hpath
            exact List.mem_singleton.mpr (Prod.ext (Path.ext hpath) rfl)
        | cons step rest => cases hsite
  | branch children keys below ih =>
      intro here path held
      exact Tree.mem_leaves_of_listsWalks keys ih

/-- The leaves of a tree in order are the walks that end at a leaf. -/
theorem Tree.mem_leaves_iff {tree : Tree} (htree : tree.Ordered) {above : List Segment}
    {path : Path} {held : Leaf} :
    (path, held) ∈ Tree.leaves above tree ↔
      ∃ rest, path.segments = above ++ rest ∧ (Node.branch tree).site rest = .leaf held :=
  Tree.mem_leaves_of_listsWalks htree.children fun _ hmem => Node.listsWalks (htree.child hmem)

namespace Store

theorem mem_leaves_iff {store : Store} {path : Path} {held : Leaf} :
    (path, held) ∈ store.leaves ↔ store.layout path = .leaf held := by
  rw [leaves, Tree.mem_leaves_iff store.ordered]
  simp [layout]

/-- A branch counts no leaves when no leaf lies below it. -/
theorem leafCount_eq_zero {store : Store} {path : Path} {children : Tree}
    (hnode : store.node? path = some (.branch children))
    (hnone : ∀ beyond : Path, path.LeadsTo beyond → ∀ held, store.layout beyond ≠ .leaf held) :
    Tree.leafCount children = 0 := by
  rw [← Tree.length_leaves path.segments children, List.length_eq_zero_iff,
    List.eq_nil_iff_forall_not_mem]
  rintro ⟨beyond, held⟩ hmem
  have hordered : Tree.Ordered children := Tree.ordered_of_node? store.ordered hnode
  obtain ⟨rest, hbeyond, hsite⟩ := (Tree.mem_leaves_iff hordered).mp hmem
  apply hnone beyond
  · exact ⟨rest, hbeyond.symm⟩
  · rw [layout, hbeyond, Tree.site_append hnode]
    exact hsite

end Store

end PropertyTree
