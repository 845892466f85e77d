import PropertyTree.Proofs.Keyed
import PropertyTree.Proofs.Store.Leaves

/-! # The order of the leaves

The leaves of a store stand in path order, each of them once. Those of a branch are the ones whose
paths lie below it, so they are a part of the list that can be told by the paths alone.
-/

namespace PropertyTree

/-- Paths that part at some step are ordered as the two steps are. -/
theorem Path.lt_of_steps {left right : Path} {shared leftRest rightRest : List Segment}
    {step other : Segment} (hleft : left.segments = shared ++ step :: leftRest)
    (hright : right.segments = shared ++ other :: rightRest) (hlt : step < other) :
    left < right := by
  have hsegments : shared ++ step :: leftRest < shared ++ other :: rightRest := by
    clear hleft hright
    induction shared with
    | nil => exact List.cons_lt_cons_iff.mpr (Or.inl hlt)
    | cons first rest ih => exact List.cons_lt_cons_iff.mpr (Or.inr ⟨rfl, ih⟩)
  rw [← hleft, ← hright] at hsegments
  exact hsegments

theorem Tree.ordered_leaves_of_children {tree : List (Segment × Node)}
    (hkeys : Keyed.Ordered tree) (hordered : ∀ entry ∈ tree, entry.2.Ordered)
    (hleaves : ∀ entry ∈ tree, ∀ here : Path, Keyed.Ordered (entry.2.leaves here))
    (above : List Segment) : Keyed.Ordered (Tree.leaves above tree) := by
  induction tree with
  | nil => exact Keyed.ordered_nil
  | cons entry rest ih =>
      obtain ⟨step, node⟩ := entry
      have hrest := ih hkeys.tail (fun entry hmem => hordered entry (List.mem_cons_of_mem _ hmem))
        (fun entry hmem => hleaves entry (List.mem_cons_of_mem _ hmem))
      refine List.pairwise_append.mpr ⟨hleaves _ List.mem_cons_self _, hrest, ?_⟩
      rintro ⟨left, held⟩ hleft ⟨right, other⟩ hright
      -- A leaf of the first child and one of a later child part at the steps to these children.
      obtain ⟨⟨later, child⟩, hmem, hright⟩ := Tree.mem_leaves.mp hright
      have hnode := hordered _ List.mem_cons_self
      have hchild := hordered _ (List.mem_cons_of_mem _ hmem)
      obtain ⟨leftRest, hleft, _⟩ := (Node.listsWalks hnode _ left held).mp hleft
      obtain ⟨rightRest, hright, _⟩ := (Node.listsWalks hchild _ right other).mp hright
      have hleft : left.segments = above ++ step :: leftRest := by simpa using hleft
      have hright : right.segments = above ++ later :: rightRest := by simpa using hright
      exact Path.lt_of_steps hleft hright (hkeys.head_lt _ hmem)

theorem Node.ordered_leaves {node : Node} (hnode : node.Ordered) (here : Path) :
    Keyed.Ordered (node.leaves here) := by
  induction hnode generalizing here with
  | leaf held => exact List.pairwise_singleton _ _
  | branch children keys below ih =>
      exact Tree.ordered_leaves_of_children keys below ih here.segments

theorem Tree.ordered_leaves {tree : Tree} (htree : tree.Ordered) (above : List Segment) :
    Keyed.Ordered (Tree.leaves above tree) :=
  Tree.ordered_leaves_of_children htree.children (fun _ hmem => htree.child hmem)
    (fun _ hmem => Node.ordered_leaves (htree.child hmem)) above

namespace Store

/-- The leaves of a store are in path order, each listed once. -/
theorem ordered_leaves (store : Store) : Keyed.Ordered store.leaves :=
  Tree.ordered_leaves store.ordered []

/-- The leaves of a branch are those whose paths lie below it. -/
theorem leaves_below {store : Store} {path : Path} {children : Tree}
    (hnode : store.node? path = some (.branch children)) :
    store.leaves.filter (fun entry => path.isAbove entry.1) =
      Tree.leaves path.segments children := by
  have hordered : Tree.Ordered children := Tree.ordered_of_node? store.ordered hnode
  apply Keyed.ext_mem
  · exact List.Pairwise.filter _ store.ordered_leaves
  · exact Tree.ordered_leaves hordered path.segments
  · rintro ⟨beyond, held⟩
    rw [List.mem_filter, mem_leaves_iff, Tree.mem_leaves_iff hordered, Path.isAbove_iff]
    constructor
    · rintro ⟨hleaf, ⟨rest, hbeyond⟩, _⟩
      refine ⟨rest, hbeyond.symm, ?_⟩
      rwa [layout, ← hbeyond, Tree.site_append hnode] at hleaf
    · rintro ⟨rest, hbeyond, hsite⟩
      have hleaf : store.layout beyond = .leaf held := by
        rw [layout, hbeyond, Tree.site_append hnode]
        exact hsite
      refine ⟨hleaf, ⟨rest, hbeyond.symm⟩, ?_⟩
      rintro rfl
      rw [layout_eq_ofNode?, hnode] at hleaf
      cases hleaf

end Store

end PropertyTree
