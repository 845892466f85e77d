import PropertyTree.Proofs.Path.Above
import PropertyTree.Proofs.Store.Change

/-! # Layouts of stores

The layout of a store says what each path of it ends at, and determines the store. A write and an
erasure both assign to one path what it is to hold, so what events do to a store follows from two
laws of assignment: the last one at a path counts, and assignments at paths apart commute.
-/

namespace PropertyTree

/-- What each path ends at. -/
abbrev Layout := Path → Site

namespace Layout

/-- A path that passes here leaves the way to `path` and ends at a node. -/
def Forks (layout : Layout) (here path : Path) : Prop :=
  ∃ beyond : Path, here.LeadsTo beyond ∧ ¬ beyond.LeadsTo path ∧ layout beyond ≠ .vacant

/-- A branch here has something below it once `path` holds the given leaf, or none. -/
def Needs (layout : Layout) (here path : Path) (held : Option Leaf) : Prop :=
  held.isSome ∨ layout.Forks here path

theorem needs_some (layout : Layout) (here path : Path) (leaf : Leaf) :
    layout.Needs here path (some leaf) := Or.inl rfl

theorem needs_none_iff {layout : Layout} {here path : Path} :
    layout.Needs here path none ↔ layout.Forks here path := by
  simp [Needs]

open Classical in
/-- The layout with a path holding the given leaf, or none. A path above it ends at a branch just if
that has something below it. -/
noncomputable def assign (layout : Layout) (path : Path) (held : Option Leaf) : Layout :=
  fun here =>
    if here = path then .ofLeaf? held
    else if here.LeadsTo path then
      if layout.Needs here path held then .branch else .vacant
    else layout here

theorem assign_self (layout : Layout) (path : Path) (held : Option Leaf) :
    layout.assign path held path = .ofLeaf? held := if_pos rfl

theorem assign_of_not_leadsTo {here path : Path} (hoff : ¬ here.LeadsTo path) (layout : Layout)
    (held : Option Leaf) : layout.assign path held here = layout here := by
  have hne : here ≠ path := by
    rintro rfl
    exact hoff (.refl here)
  rw [assign, if_neg hne, if_neg hoff]

open Classical in
theorem assign_above {here path : Path} (hleads : here.LeadsTo path) (hne : here ≠ path)
    (layout : Layout) (held : Option Leaf) :
    layout.assign path held here =
      if layout.Needs here path held then .branch else .vacant := by
  rw [assign, if_neg hne, if_pos hleads]

theorem assign_eq_leaf_iff {here path : Path} (hne : here ≠ path) {layout : Layout}
    {held : Option Leaf} {leaf : Leaf} :
    layout.assign path held here = .leaf leaf ↔
      ¬ here.LeadsTo path ∧ layout here = .leaf leaf := by
  by_cases hleads : here.LeadsTo path
  · rw [assign_above hleads hne]
    split <;> simp [hleads]
  · simp [assign_of_not_leadsTo hleads, hleads]

theorem needs_congr {left right : Layout} {here path : Path}
    (h : ∀ beyond : Path, here.LeadsTo beyond → ¬ beyond.LeadsTo path →
      left beyond = right beyond) (held : Option Leaf) :
    left.Needs here path held ↔ right.Needs here path held := by
  refine or_congr_right (exists_congr fun beyond => and_congr_right fun hbeyond =>
    and_congr_right fun hoff => ?_)
  rw [h beyond hbeyond hoff]

/-- What an assignment leaves somewhere depends only on what lies there and below. -/
theorem assign_congr {left right : Layout} {here : Path}
    (h : ∀ beyond : Path, here.LeadsTo beyond → left beyond = right beyond) (path : Path)
    (held : Option Leaf) : left.assign path held here = right.assign path held here := by
  by_cases hleads : here.LeadsTo path
  · by_cases hself : here = path
    · subst hself
      rw [assign_self, assign_self]
    · have hneeds : left.Needs here path held ↔ right.Needs here path held :=
        needs_congr (fun beyond hbeyond _ => h beyond hbeyond) held
      rw [assign_above hleads hself, assign_above hleads hself, hneeds]
  · rw [assign_of_not_leadsTo hleads, assign_of_not_leadsTo hleads, h here (.refl here)]

/-- The last assignment at a path counts. -/
theorem assign_assign (layout : Layout) (path : Path) (first last : Option Leaf) :
    (layout.assign path first).assign path last = layout.assign path last := by
  funext here
  by_cases hleads : here.LeadsTo path
  · by_cases hself : here = path
    · subst hself
      rw [assign_self, assign_self]
    · have hneeds : (layout.assign path first).Needs here path last ↔
          layout.Needs here path last :=
        needs_congr (fun _ _ hoff => assign_of_not_leadsTo hoff layout first) last
      rw [assign_above hleads hself, assign_above hleads hself, hneeds]
  · rw [assign_of_not_leadsTo hleads, assign_of_not_leadsTo hleads, assign_of_not_leadsTo hleads]

/-- Above two paths apart, what is assigned to the one counts as a fork from the way to the other
if it is a leaf; else only a node off both ways does. -/
theorem forks_assign_iff {here left right : Path} (hapart : left.Apart right)
    (hleft : here.LeadsTo left) (layout : Layout) (held : Option Leaf) :
    (layout.assign left held).Forks here right ↔
      held.isSome ∨ ∃ beyond : Path, here.LeadsTo beyond ∧ ¬ beyond.LeadsTo left ∧
        ¬ beyond.LeadsTo right ∧ layout beyond ≠ .vacant := by
  constructor
  · rintro ⟨beyond, hbeyond, hoff, hthere⟩
    by_cases hon : beyond.LeadsTo left
    · by_cases hself : beyond = left
      · subst hself
        rw [assign_self] at hthere
        cases held with
        | none => exact absurd rfl hthere
        | some leaf => exact Or.inl rfl
      · rw [assign_above hon hself] at hthere
        split at hthere
        next hkept =>
          rcases hkept with hsome | ⟨further, hfurther, hoffLeft, hnode⟩
          · exact Or.inl hsome
          · exact Or.inr ⟨further, hbeyond.trans hfurther, hoffLeft,
              fun hlead => hoff (hfurther.trans hlead), hnode⟩
        next => exact absurd rfl hthere
    · rw [assign_of_not_leadsTo hon] at hthere
      exact Or.inr ⟨beyond, hbeyond, hon, hoff, hthere⟩
  · rintro (hsome | ⟨beyond, hbeyond, hoffLeft, hoffRight, hthere⟩)
    · refine ⟨left, hleft, hapart.1, ?_⟩
      obtain ⟨leaf, rfl⟩ := Option.isSome_iff_exists.mp hsome
      rw [assign_self]
      exact Site.leaf_ne_vacant leaf
    · refine ⟨beyond, hbeyond, hoffRight, ?_⟩
      rwa [assign_of_not_leadsTo hoffLeft]

theorem assign_comm_of_not_leadsTo {here left right : Path} (hright : ¬ here.LeadsTo right)
    (layout : Layout) (first second : Option Leaf) :
    (layout.assign left first).assign right second here =
      (layout.assign right second).assign left first here := by
  rw [assign_of_not_leadsTo hright]
  refine assign_congr (fun beyond hbeyond => ?_) left first
  rw [assign_of_not_leadsTo (fun hleads => hright (hbeyond.trans hleads))]

/-- Assignments at paths apart commute. -/
theorem assign_comm {left right : Path} (hapart : left.Apart right) (layout : Layout)
    (first second : Option Leaf) :
    (layout.assign left first).assign right second =
      (layout.assign right second).assign left first := by
  funext here
  by_cases hleft : here.LeadsTo left
  · by_cases hright : here.LeadsTo right
    · have hneLeft : here ≠ left := by
        rintro rfl
        exact hapart.1 hright
      have hneRight : here ≠ right := by
        rintro rfl
        exact hapart.2 hleft
      -- Above both paths either order asks for the same: one of the two leaves, or a node off
      -- both ways.
      have hneeds : (layout.assign left first).Needs here right second ↔
          (layout.assign right second).Needs here left first := by
        rw [Needs, Needs, forks_assign_iff hapart hleft, forks_assign_iff hapart.symm hright,
          or_left_comm]
        simp only [and_left_comm]
      rw [assign_above hright hneRight, assign_above hleft hneLeft, hneeds]
    · exact assign_comm_of_not_leadsTo hright layout first second
  · exact (assign_comm_of_not_leadsTo hleft layout second first).symm

end Layout

namespace Store

/-- What each path of the store ends at. -/
def layout (store : Store) : Layout := fun path => (Node.branch store.tree).site path.segments

theorem layout_eq_ofNode? (store : Store) (path : Path) :
    store.layout path = .ofNode? (store.node? path) :=
  Tree.site_eq_ofNode? store.tree path.segments

theorem layout_empty_ne_leaf (path : Path) (held : Leaf) :
    Store.empty.layout path ≠ .leaf held := by
  obtain ⟨segments, hnonempty⟩ := path
  intro hleaf
  cases segments with
  | nil => exact absurd rfl hnonempty
  | cons step rest => cases hleaf

/-- What lies above a node of a store is a branch. -/
theorem layout_above (store : Store) {above path : Path} (hleads : above.LeadsTo path)
    (hne : above ≠ path) (hthere : store.layout path ≠ .vacant) : store.layout above = .branch :=
  Node.site_of_prefix hleads (fun heq => hne (Path.ext heq)) hthere

/-- Assigning a leaf to the path that holds it changes nothing. -/
theorem assign_of_layout {store : Store} {path : Path} {held : Leaf}
    (hleaf : store.layout path = .leaf held) :
    store.layout.assign path (some held) = store.layout := by
  funext here
  by_cases hleads : here.LeadsTo path
  · by_cases hself : here = path
    · subst hself
      rw [Layout.assign_self, hleaf]
      rfl
    · have hthere : store.layout path ≠ .vacant := by
        rw [hleaf]
        exact Site.leaf_ne_vacant held
      rw [Layout.assign_above hleads hself, if_pos (Layout.needs_some _ _ _ _),
        store.layout_above hleads hself hthere]
  · rw [Layout.assign_of_not_leadsTo hleads]

/-- The layout determines the store. -/
theorem ext_layout {left right : Store} (h : left.layout = right.layout) : left = right := by
  have htree : left.tree = right.tree := by
    refine Tree.ext_site left.ordered right.ordered fun steps => ?_
    cases steps with
    | nil => rfl
    | cons step rest => exact congrFun h ⟨step :: rest, by simp⟩
  cases left
  cases right
  cases htree
  rfl

/-- Stores that agree at a path and below it have one node there. -/
theorem node?_congr {left right : Store} {path : Path}
    (h : ∀ beyond : Path, path.LeadsTo beyond → left.layout beyond = right.layout beyond) :
    left.node? path = right.node? path := by
  have hhere := h path (.refl path)
  rw [layout_eq_ofNode?, layout_eq_ofNode?] at hhere
  cases hl : left.node? path with
  | none =>
      cases hr : right.node? path with
      | none => rfl
      | some node => rw [hl, hr] at hhere; cases node <;> cases hhere
  | some node =>
      cases hr : right.node? path with
      | none => rw [hl, hr] at hhere; cases node <;> cases hhere
      | some other =>
          rw [hl, hr] at hhere
          cases node with
          | leaf held =>
              cases other with
              | leaf _ => cases hhere; rfl
              | branch _ => cases hhere
          | branch children =>
              cases other with
              | leaf _ => cases hhere
              | branch others =>
                  congr 2
                  refine Tree.ext_site (Tree.ordered_of_node? left.ordered hl)
                    (Tree.ordered_of_node? right.ordered hr) fun rest => ?_
                  rw [← Tree.site_append hl, ← Tree.site_append hr]
                  exact h ⟨path.segments ++ rest, by simp [path.nonempty]⟩
                    (List.prefix_append _ _)

/-- The blocker of a path is the leaf above it. -/
theorem blocker?_eq_some_iff {store : Store} {path blocking : Path} :
    store.blocker? path = some blocking ↔
      blocking.isAbove path = true ∧ ∃ held, store.layout blocking = .leaf held := by
  rw [blocker?, Option.bind_eq_some_iff, Path.isAbove_iff]
  constructor
  · rintro ⟨steps, hsteps, hblocking⟩
    obtain ⟨hlead, hne, hleaf⟩ := Tree.blocker?_eq_some_iff.mp hsteps
    rw [Path.ofSegments?] at hblocking
    split at hblocking
    next hnonempty =>
      cases hblocking
      refine ⟨⟨hlead, ?_⟩, hleaf⟩
      rintro rfl
      exact hne rfl
    next => cases hblocking
  · rintro ⟨⟨hleads, hne⟩, hleaf⟩
    refine ⟨blocking.segments, Tree.blocker?_eq_some_iff.mpr ⟨hleads, ?_, hleaf⟩, ?_⟩
    · exact fun heq => hne (Path.ext heq)
    · rw [Path.ofSegments?, dif_pos blocking.nonempty]

theorem forks_iff (store : Store) (here path : Path) :
    (Node.branch store.tree).Forks here.segments path.segments ↔
      store.layout.Forks here path := by
  constructor
  · rintro ⟨beyond, hbeyond, hoff, hthere⟩
    have hnonempty : beyond ≠ [] := by
      rintro rfl
      exact here.nonempty (List.prefix_nil.mp hbeyond)
    exact ⟨⟨beyond, hnonempty⟩, hbeyond, hoff, hthere⟩
  · rintro ⟨beyond, hbeyond, hoff, hthere⟩
    exact ⟨beyond.segments, hbeyond, hoff, hthere⟩

theorem tree_put?_of_put? {store after : Store} {path : Path} {leaf : Leaf}
    (hput : store.put? path leaf = some after) :
    store.tree.put? leaf path.segments = some after.tree := by
  unfold put? at hput
  split at hput
  next tree htree =>
    cases hput
    exact htree
  next => cases hput

/-- Putting a leaf assigns it to its path. -/
theorem layout_put? {store after : Store} {path : Path} {leaf : Leaf}
    (hput : store.put? path leaf = some after) :
    after.layout = store.layout.assign path (some leaf) := by
  funext here
  rw [layout, Tree.site_put? (tree_put?_of_put? hput)]
  by_cases hself : here = path
  · subst hself
    rw [if_pos rfl, Layout.assign_self]
    rfl
  · rw [if_neg (fun heq => hself (Path.ext heq))]
    by_cases hleads : here.segments <+: path.segments
    · rw [if_pos hleads, Layout.assign_above hleads hself,
        if_pos (Layout.needs_some _ _ _ _)]
    · rw [if_neg hleads, Layout.assign_of_not_leadsTo hleads]
      rfl

/-- Erasing a leaf assigns nothing to its path. -/
theorem layout_erase? {store after : Store} {path : Path} {held : Leaf}
    (herase : store.erase? path = some (held, after)) :
    after.layout = store.layout.assign path none := by
  have htree : store.tree.erase? path.segments = some (held, after.tree) := by
    unfold erase? at herase
    split at herase
    next _ tree htree =>
      cases herase
      exact htree
    next => cases herase
  have hleaf : store.layout path = .leaf held := Tree.site_of_erase? htree
  funext here
  have hwalk := Tree.erasedTo_of_erase? store.ordered htree here.segments here.nonempty
  rw [Node.Pruned, forks_iff] at hwalk
  by_cases hleads : here.LeadsTo path
  · by_cases hself : here = path
    · subst hself
      rw [Layout.assign_self]
      rcases hwalk with ⟨_, hgone⟩ | ⟨hkept, _⟩
      · exact hgone
      · -- Nothing lies below a leaf, so nothing keeps the leaf itself.
        refine absurd ⟨hleads, ?_⟩ hkept
        rintro ⟨beyond, hbeyond, hoff, hthere⟩
        have hne : here ≠ beyond := by
          rintro rfl
          exact hoff (.refl here)
        rw [store.layout_above hbeyond hne hthere] at hleaf
        cases hleaf
    · rw [Layout.assign_above hleads hself]
      split
      next hneeds =>
        rcases hwalk with ⟨hpruned, _⟩ | ⟨_, hkept⟩
        · exact absurd (Layout.needs_none_iff.mp hneeds) hpruned.2
        · refine hkept.trans (store.layout_above hleads hself ?_)
          rw [hleaf]
          exact Site.leaf_ne_vacant held
      next hneeds =>
        rcases hwalk with ⟨_, hgone⟩ | ⟨hkept, _⟩
        · exact hgone
        · exact absurd ⟨hleads, fun hforks => hneeds (Layout.needs_none_iff.mpr hforks)⟩ hkept
  · rw [Layout.assign_of_not_leadsTo hleads]
    rcases hwalk with ⟨hpruned, _⟩ | ⟨_, hkept⟩
    · exact absurd hpruned.1 hleads
    · exact hkept

end Store

end PropertyTree
