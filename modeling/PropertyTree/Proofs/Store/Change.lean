import PropertyTree.Proofs.Store.Site

/-! # Putting and erasing a leaf, by sites

Putting a leaf at the end of a walk makes every shorter walk along it end at a branch. Erasing it
takes with it each branch from which no walk leads elsewhere. All other walks end as they did.
-/

namespace PropertyTree

namespace Node

/-- A walk that passes here leaves the given steps and ends at a node. -/
def Forks (node : Node) (here steps : List Segment) : Prop :=
  ∃ beyond, here <+: beyond ∧ ¬ beyond <+: steps ∧ node.site beyond ≠ .vacant

/-- The end of the walk goes with the node at the end of the given steps: it lies on the way there,
and nothing else hangs on it. -/
def Pruned (node : Node) (here steps : List Segment) : Prop :=
  here <+: steps ∧ ¬ node.Forks here steps

theorem forks_cons {tree : Tree} {step : Segment} {child : Node}
    (hfind : Keyed.find? step tree = some child) (here steps : List Segment) :
    (Node.branch tree).Forks (step :: here) (step :: steps) ↔ child.Forks here steps := by
  constructor
  · rintro ⟨beyond, ⟨rest, rfl⟩, hoff, hthere⟩
    rw [List.cons_append, List.cons_prefix_cons] at hoff
    rw [List.cons_append, site_branch_of_find? hfind] at hthere
    exact ⟨here ++ rest, List.prefix_append _ _, fun hon => hoff ⟨rfl, hon⟩, hthere⟩
  · rintro ⟨beyond, hbeyond, hoff, hthere⟩
    refine ⟨step :: beyond, List.cons_prefix_cons.mpr ⟨rfl, hbeyond⟩, ?_, ?_⟩
    · exact fun hon => hoff (List.cons_prefix_cons.mp hon).2
    · rwa [site_branch_of_find? hfind]

theorem pruned_cons {tree : Tree} {step : Segment} {child : Node}
    (hfind : Keyed.find? step tree = some child) (here steps : List Segment) :
    (Node.branch tree).Pruned (step :: here) (step :: steps) ↔ child.Pruned here steps := by
  simp only [Pruned, forks_cons hfind, List.cons_prefix_cons, true_and]

theorem not_pruned_cons_of_ne (node : Node) {first step : Segment} (hne : first ≠ step)
    (here steps : List Segment) : ¬ node.Pruned (first :: here) (step :: steps) :=
  fun hpruned => hne (List.cons_prefix_cons.mp hpruned.1).1

theorem site_grow (leaf : Leaf) (steps walk : List Segment) :
    (Tree.grow leaf steps).site walk =
      if walk = steps then .leaf leaf else if walk <+: steps then .branch else .vacant := by
  induction steps generalizing walk with
  | nil =>
      rw [Tree.grow]
      cases walk with
      | nil => rfl
      | cons step rest => simp
  | cons step steps ih =>
      rw [Tree.grow]
      cases walk with
      | nil => simp
      | cons first rest =>
          simp only [site_branch_cons, Keyed.find?_cons, List.cons_prefix_cons]
          by_cases hfirst : step = first
          · subst hfirst
            simp [ih]
          · simp [hfirst, Ne.symm hfirst]

/-- A branch with a child replaced: walks into the child end as in the child, others as before. -/
theorem site_insert_cons (children : Tree) (step : Segment) (child : Node) (first : Segment)
    (rest : List Segment) :
    (Node.branch (Keyed.insert step child children)).site (first :: rest) =
      if step = first then child.site rest else (Node.branch children).site (first :: rest) := by
  rw [site_branch_cons, Keyed.find?_insert, site_branch_cons]
  by_cases hfirst : step = first <;> simp [hfirst]

/-- A branch without a child: no walk into the child ends anywhere, others end as before. -/
theorem site_erase_cons {children : Tree} (hordered : Keyed.Ordered children)
    (step first : Segment) (rest : List Segment) :
    (Node.branch (Keyed.erase step children)).site (first :: rest) =
      if step = first then .vacant else (Node.branch children).site (first :: rest) := by
  rw [site_branch_cons, hordered.find?_erase, site_branch_cons]
  by_cases hfirst : step = first <;> simp [hfirst]

end Node

namespace Tree

/-- Every walk after a leaf was put: it ends at the leaf, at a branch above it, or as before. -/
theorem site_put? {tree after : Tree} {leaf : Leaf} {steps : List Segment}
    (hput : tree.put? leaf steps = some after) (walk : List Segment) :
    (Node.branch after).site walk =
      if walk = steps then .leaf leaf
      else if walk <+: steps then .branch else (Node.branch tree).site walk := by
  -- The walk and the steps part at some child: from there on nothing has changed.
  induction steps generalizing tree after walk with
  | nil => cases hput
  | cons step steps ih =>
      simp only [put?] at hput
      obtain ⟨child, hchild, rfl⟩ := Option.map_eq_some_iff.mp hput
      cases walk with
      | nil => simp
      | cons first rest =>
          simp only [Node.site_insert_cons, List.cons_prefix_cons]
          by_cases hfirst : step = first
          · subst hfirst
            simp only [if_true, true_and, List.cons.injEq]
            split at hchild
            next hfind =>
              cases hchild
              rw [Node.site_grow, Node.site_branch_of_find?_none hfind]
            next held hfind =>
              split at hchild
              next hempty =>
                cases hchild
                obtain rfl := List.isEmpty_iff.mp hempty
                rw [Node.site_branch_of_find? hfind]
                cases rest <;> simp
              next => cases hchild
            next children hfind =>
              obtain ⟨grown, hgrown, rfl⟩ := Option.map_eq_some_iff.mp hchild
              rw [Node.site_branch_of_find? hfind, ih hgrown]
          · simp [hfirst, Ne.symm hfirst]

/-- A leaf can be put unless a leaf is met on the way or a branch stands at the end. -/
theorem exists_put? {tree : Tree} (leaf : Leaf) {steps : List Segment} (hsteps : steps ≠ [])
    (hway : tree.blocker? steps = none) (hend : (Node.branch tree).site steps ≠ .branch) :
    ∃ after, tree.put? leaf steps = some after := by
  induction steps generalizing tree with
  | nil => exact absurd rfl hsteps
  | cons step steps ih =>
      simp only [put?, Option.map_eq_some_iff]
      rw [blocker?] at hway
      rw [Node.site_branch_cons] at hend
      cases hfind : Keyed.find? step tree with
      | none => simp
      | some child =>
          cases child with
          | leaf held => cases steps <;> simp_all
          | branch children =>
              simp only [hfind, Option.map_eq_none_iff] at hway hend
              have hsteps : steps ≠ [] := by
                rintro rfl
                exact hend rfl
              obtain ⟨below, hbelow⟩ := ih hsteps hway hend
              simp [hbelow]

theorem site_of_erase? {tree after : Tree} {held : Leaf} {steps : List Segment}
    (herase : tree.erase? steps = some (held, after)) :
    (Node.branch tree).site steps = .leaf held := by
  induction steps generalizing tree after with
  | nil => cases herase
  | cons step steps ih =>
      rw [erase?] at herase
      rw [Node.site_branch_cons]
      split at herase
      next => cases herase
      next found hfind =>
        split at herase
        next hempty =>
          cases herase
          obtain rfl := List.isEmpty_iff.mp hempty
          simp [hfind]
        next => cases herase
      next children hfind =>
        obtain ⟨⟨leaf, below⟩, hbelow, heq⟩ := Option.map_eq_some_iff.mp herase
        cases heq
        simpa only [hfind] using ih hbelow

/-- A leaf that is there can be erased. -/
theorem exists_erase? {tree : Tree} {held : Leaf} {steps : List Segment}
    (hleaf : (Node.branch tree).site steps = .leaf held) :
    ∃ after, tree.erase? steps = some (held, after) := by
  induction steps generalizing tree with
  | nil => cases hleaf
  | cons step steps ih =>
      rw [Node.site_branch_cons] at hleaf
      rw [erase?]
      cases hfind : Keyed.find? step tree with
      | none => simp [hfind] at hleaf
      | some child =>
          simp only [hfind] at hleaf
          cases child with
          | leaf found =>
              cases steps with
              | nil =>
                  cases hleaf
                  simp
              | cons _ _ => cases hleaf
          | branch children =>
              obtain ⟨below, hbelow⟩ := ih hleaf
              simp [hbelow]

theorem isEmpty_iff_vacant {tree : Tree} :
    tree.isEmpty = true ↔ ∀ walk, walk ≠ [] → (Node.branch tree).site walk = .vacant := by
  constructor
  · intro hempty walk hwalk
    obtain rfl := List.isEmpty_iff.mp hempty
    cases walk with
    | nil => exact absurd rfl hwalk
    | cons step rest => rfl
  · intro hvacant
    cases tree with
    | nil => rfl
    | cons child rest =>
        have hhere := hvacant [child.1] (by simp)
        obtain ⟨step, node⟩ := child
        cases node <;> simp [Keyed.find?_cons, Node.site] at hhere

/-- After the erasure of the node at the end of some steps, the walks to what is pruned with it end
nowhere, and all others as before. -/
def ErasedTo (tree after : Tree) (steps : List Segment) : Prop :=
  ∀ walk, walk ≠ [] →
    (Node.branch tree).Pruned walk steps ∧ (Node.branch after).site walk = .vacant ∨
    ¬ (Node.branch tree).Pruned walk steps ∧
      (Node.branch after).site walk = (Node.branch tree).site walk

/-- An erasure leaves a branch empty just if the branch is pruned with it. -/
theorem ErasedTo.isEmpty_iff {tree after : Tree} {steps : List Segment}
    (herased : tree.ErasedTo after steps) :
    after.isEmpty = true ↔ (Node.branch tree).Pruned [] steps := by
  rw [isEmpty_iff_vacant]
  constructor
  · intro hvacant
    refine ⟨List.nil_prefix, ?_⟩
    rintro ⟨beyond, _, hoff, hthere⟩
    have hbeyond : beyond ≠ [] := by
      rintro rfl
      exact hoff List.nil_prefix
    rcases herased beyond hbeyond with ⟨hpruned, _⟩ | ⟨_, heq⟩
    · exact hoff hpruned.1
    · exact hthere (heq ▸ hvacant beyond hbeyond)
  · rintro ⟨_, hforks⟩ walk hwalk
    have hpruned : (Node.branch tree).site walk ≠ .vacant →
        (Node.branch tree).Pruned walk steps := by
      intro hthere
      refine ⟨?_, ?_⟩
      · exact Decidable.byContradiction fun hoff =>
          hforks ⟨walk, List.nil_prefix, hoff, hthere⟩
      · rintro ⟨beyond, _, hoff, hnode⟩
        exact hforks ⟨beyond, List.nil_prefix, hoff, hnode⟩
    rcases herased walk hwalk with ⟨_, hgone⟩ | ⟨hkept, heq⟩
    · exact hgone
    · rw [heq]
      exact Decidable.byContradiction fun hthere => hkept (hpruned hthere)

theorem ErasedTo.cons_leaf {tree : Tree} (htree : Keyed.Ordered tree) {step : Segment}
    {held : Leaf} (hfind : Keyed.find? step tree = some (.leaf held)) :
    ErasedTo tree (Keyed.erase step tree) [step] := by
  intro walk hwalk
  cases walk with
  | nil => exact absurd rfl hwalk
  | cons first rest =>
      rw [Node.site_erase_cons htree]
      by_cases hfirst : step = first
      · subst hfirst
        rw [if_pos rfl, Node.pruned_cons hfind, Node.site_branch_of_find? hfind]
        cases rest with
        | nil =>
            refine Or.inl ⟨⟨List.prefix_refl _, ?_⟩, rfl⟩
            rintro ⟨beyond, _, hoff, hthere⟩
            cases beyond with
            | nil => exact hoff (List.prefix_refl _)
            | cons _ _ => exact hthere rfl
        | cons _ _ => exact Or.inr ⟨fun hpruned => by simpa using hpruned.1, rfl⟩
      · rw [if_neg hfirst]
        exact Or.inr ⟨Node.not_pruned_cons_of_ne _ (Ne.symm hfirst) _ _, rfl⟩

theorem ErasedTo.cons_branch {tree children below : Tree} (htree : Keyed.Ordered tree)
    {step : Segment} (hfind : Keyed.find? step tree = some (.branch children))
    {steps : List Segment} (herased : ErasedTo children below steps) :
    ErasedTo tree (if below.isEmpty then Keyed.erase step tree
      else Keyed.insert step (.branch below) tree) (step :: steps) := by
  intro walk hwalk
  cases walk with
  | nil => exact absurd rfl hwalk
  | cons first rest =>
      by_cases hfirst : step = first
      · subst hfirst
        rw [Node.pruned_cons hfind, Node.site_branch_of_find? hfind]
        split
        -- The child is gone, so it was pruned, and no walk through it went anywhere else.
        next hempty =>
          rw [Node.site_erase_cons htree, if_pos rfl]
          cases rest with
          | nil => exact Or.inl ⟨herased.isEmpty_iff.mp hempty, rfl⟩
          | cons next rest =>
              have hvacant := isEmpty_iff_vacant.mp hempty (next :: rest) (by simp)
              exact (herased (next :: rest) (by simp)).imp (fun h => ⟨h.1, rfl⟩)
                (fun h => ⟨h.1, hvacant ▸ h.2⟩)
        next hfull =>
          rw [Node.site_insert_cons, if_pos rfl]
          cases rest with
          | nil => exact Or.inr ⟨fun hpruned => hfull (herased.isEmpty_iff.mpr hpruned), rfl⟩
          | cons next rest => exact herased (next :: rest) (by simp)
      · refine Or.inr ⟨Node.not_pruned_cons_of_ne _ (Ne.symm hfirst) _ _, ?_⟩
        split
        next => rw [Node.site_erase_cons htree, if_neg hfirst]
        next => rw [Node.site_insert_cons, if_neg hfirst]

theorem erasedTo_of_erase? {tree after : Tree} (htree : tree.Ordered) {held : Leaf}
    {steps : List Segment} (herase : tree.erase? steps = some (held, after)) :
    tree.ErasedTo after steps := by
  induction steps generalizing tree after with
  | nil => cases herase
  | cons step steps ih =>
      rw [erase?] at herase
      split at herase
      next => cases herase
      next found hfind =>
        split at herase
        next hempty =>
          cases herase
          obtain rfl := List.isEmpty_iff.mp hempty
          exact .cons_leaf htree.children hfind
        next => cases herase
      next children hfind =>
        obtain ⟨⟨leaf, below⟩, hbelow, heq⟩ := Option.map_eq_some_iff.mp herase
        cases heq
        exact .cons_branch htree.children hfind (ih (Node.Ordered.found htree hfind) hbelow)

end Tree

end PropertyTree
