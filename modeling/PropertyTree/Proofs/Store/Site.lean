import PropertyTree.Store.Basic

/-! # What the walks through a tree end at

A walk ends at nothing, at a branch or at a leaf. Trees in order are determined by the ends of their
walks, so putting and erasing a leaf are described by what they do to each end: the walks that lead
to the leaf change, and all others stay as they are.
-/

namespace PropertyTree

/-- What a walk ends at. -/
inductive Site where
  | vacant
  | branch
  | leaf (held : Leaf)
deriving DecidableEq

namespace Site

/-- The site of a node, if there is one. -/
def ofNode? : Option Node → Site
  | none => .vacant
  | some (.leaf held) => .leaf held
  | some (.branch _) => .branch

/-- The site of a leaf, if there is one. -/
def ofLeaf? : Option Leaf → Site
  | none => .vacant
  | some held => .leaf held

end Site

theorem Site.leaf_ne_vacant (held : Leaf) : Site.leaf held ≠ .vacant := by simp

/-- What a walk from a node ends at. -/
def Node.site : Node → List Segment → Site
  | .leaf held, [] => .leaf held
  | .leaf _, _ :: _ => .vacant
  | .branch _, [] => .branch
  | .branch children, step :: rest =>
      match Keyed.find? step children with
      | none => .vacant
      | some child => child.site rest

namespace Node

@[simp] theorem site_leaf_nil (held : Leaf) : (Node.leaf held).site [] = .leaf held := rfl

@[simp] theorem site_leaf_cons (held : Leaf) (step : Segment) (rest : List Segment) :
    (Node.leaf held).site (step :: rest) = .vacant := rfl

@[simp] theorem site_branch_nil (children : Tree) : (Node.branch children).site [] = .branch :=
  rfl

theorem site_branch_cons (children : Tree) (step : Segment) (rest : List Segment) :
    (Node.branch children).site (step :: rest) =
      match Keyed.find? step children with
      | none => .vacant
      | some child => child.site rest := rfl

theorem site_branch_of_find? {children : Tree} {step : Segment} {child : Node}
    (hfind : Keyed.find? step children = some child) (rest : List Segment) :
    (Node.branch children).site (step :: rest) = child.site rest := by
  rw [site_branch_cons, hfind]

theorem site_branch_of_find?_none {children : Tree} {step : Segment}
    (hfind : Keyed.find? step children = none) (rest : List Segment) :
    (Node.branch children).site (step :: rest) = .vacant := by
  rw [site_branch_cons, hfind]

/-- What lies above a node that is there is a branch. -/
theorem site_of_prefix {node : Node} {above steps : List Segment} (hlead : above <+: steps)
    (hne : above ≠ steps) (hthere : node.site steps ≠ .vacant) : node.site above = .branch := by
  induction above generalizing node steps with
  | nil =>
      cases node with
      | branch children => rfl
      | leaf held =>
          cases steps with
          | nil => exact absurd rfl hne
          | cons step rest => exact absurd rfl hthere
  | cons step above ih =>
      obtain ⟨rest, rfl⟩ := hlead
      cases node with
      | leaf held => exact absurd rfl hthere
      | branch children =>
          rw [List.cons_append, site_branch_cons] at hthere
          rw [site_branch_cons]
          cases hfind : Keyed.find? step children with
          | none => simp [hfind] at hthere
          | some child =>
              simp only [hfind] at hthere
              exact ih (List.prefix_append _ _) (fun heq => hne (congrArg (step :: ·) heq)) hthere

end Node

namespace Tree

/-- The site at the end of a walk is that of the node found there. -/
theorem site_eq_ofNode? (tree : Tree) (steps : List Segment) :
    (Node.branch tree).site steps = .ofNode? (tree.node? steps) := by
  induction steps generalizing tree with
  | nil => rfl
  | cons step rest ih =>
      rw [Node.site_branch_cons, node?]
      cases Keyed.find? step tree with
      | none => rfl
      | some child =>
          cases child with
          | branch children => exact ih children
          | leaf held => cases rest <;> rfl

/-- Beyond a branch a walk goes on through its children. -/
theorem site_append {tree children : Tree} {steps : List Segment}
    (hnode : tree.node? steps = some (.branch children)) (rest : List Segment) :
    (Node.branch tree).site (steps ++ rest) = (Node.branch children).site rest := by
  induction steps generalizing tree with
  | nil =>
      cases hnode
      rfl
  | cons step steps ih =>
      rw [node?] at hnode
      rw [List.cons_append, Node.site_branch_cons]
      split at hnode
      next => cases hnode
      next held hfind => split at hnode <;> cases hnode
      next below hfind =>
        simp only [hfind]
        exact ih hnode

theorem ordered_of_node? {tree children : Tree} (htree : tree.Ordered) {steps : List Segment}
    (hnode : tree.node? steps = some (.branch children)) : children.Ordered := by
  induction steps generalizing tree with
  | nil =>
      cases hnode
      exact htree
  | cons step steps ih =>
      rw [node?] at hnode
      split at hnode
      next => cases hnode
      next held hfind => split at hnode <;> cases hnode
      next below hfind => exact ih (Node.Ordered.found htree hfind) hnode

/-- Trees in order whose walks end alike are equal. -/
theorem ext_site {left right : Tree} (hleft : left.Ordered) (hright : right.Ordered)
    (hsite : ∀ steps, (Node.branch left).site steps = (Node.branch right).site steps) :
    left = right := by
  -- The order of a tree is that of a node, and the induction goes through its children.
  suffices hnode : ∀ node : Node, node.Ordered → ∀ left right : Tree, node = .branch left →
      right.Ordered →
      (∀ steps, (Node.branch left).site steps = (Node.branch right).site steps) →
      left = right from
    hnode _ hleft left right rfl hright hsite
  intro node hordered
  induction hordered with
  | leaf held =>
      intro left right hbranch
      cases hbranch
  | branch children keys below ih =>
      intro left right hbranch hright hsite
      cases hbranch
      refine Keyed.ext keys hright.children fun step => ?_
      have hhere := hsite [step]
      have hbeyond : ∀ rest, (Node.branch children).site (step :: rest) =
          (Node.branch right).site (step :: rest) := fun rest => hsite (step :: rest)
      simp only [Node.site_branch_cons] at hhere hbeyond
      cases hl : Keyed.find? step children with
      | none =>
          cases hr : Keyed.find? step right with
          | none => rfl
          | some child =>
              simp only [hl, hr] at hhere
              cases child <;> cases hhere
      | some child =>
          cases hr : Keyed.find? step right with
          | none =>
              simp only [hl, hr] at hhere
              cases child <;> cases hhere
          | some other =>
              simp only [hl, hr] at hhere hbeyond
              cases child with
              | leaf held =>
                  cases other with
                  | leaf _ =>
                      cases hhere
                      rfl
                  | branch _ => cases hhere
              | branch inner =>
                  cases other with
                  | leaf _ => cases hhere
                  | branch outer =>
                      have heq := ih _ (Keyed.mem_of_find?_eq_some hl) inner outer rfl
                        (Node.Ordered.found hright hr) hbeyond
                      rw [heq]

/-- The steps to a leaf that a walk meets before its end, if there is one. -/
theorem blocker?_eq_some_iff {tree : Tree} {steps above : List Segment} :
    tree.blocker? steps = some above ↔
      above <+: steps ∧ above ≠ steps ∧ ∃ held, (Node.branch tree).site above = .leaf held := by
  induction steps generalizing tree above with
  | nil =>
      simp only [blocker?, List.prefix_nil]
      constructor
      · intro h
        cases h
      · rintro ⟨rfl, hne, _⟩
        exact absurd rfl hne
  | cons step rest ih =>
      cases above with
      | nil =>
          have hbelow : tree.blocker? (step :: rest) ≠ some [] := by
            rw [blocker?]
            split
            next => simp
            next => split <;> simp
            next => simp
          simp [hbelow]
      | cons first above =>
          rw [blocker?, List.cons_prefix_cons, Node.site_branch_cons]
          by_cases hfirst : first = step
          · subst hfirst
            cases hfind : Keyed.find? first tree with
            | none => simp
            | some child =>
                cases child with
                | branch children =>
                    have hbelow := @ih children above
                    simpa [Option.map_eq_some_iff] using hbelow
                | leaf held =>
                    cases rest with
                    | nil =>
                        rw [List.prefix_nil]
                        constructor
                        · intro h
                          cases h
                        · rintro ⟨⟨_, rfl⟩, hne, _⟩
                          exact absurd rfl hne
                    | cons next rest =>
                        cases above with
                        | nil => simp
                        | cons _ _ => simp
          · simp only [hfirst, false_and, iff_false]
            split
            next => simp
            next => split <;> simp [Ne.symm hfirst]
            next => simp [Ne.symm hfirst]

end Tree

end PropertyTree
