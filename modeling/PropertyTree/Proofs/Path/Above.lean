import PropertyTree.Path

/-! # Paths above, below and apart

`a.LeadsTo b` says that a walk to `b` passes or ends at `a`. It is the reflexive form of
`Path.isAbove`, which is decided by comparing segments. Two paths are apart when neither leads to
the other; what happens at one of them then cannot get in the way of the other. The ancestors of a
path are listed as they are met on a walk to it, each once.
-/

namespace PropertyTree

namespace Path

/-- The path is `other` or lies above it. -/
def LeadsTo (path other : Path) : Prop := path.segments <+: other.segments

instance (a b : Path) : Decidable (a.LeadsTo b) :=
  inferInstanceAs (Decidable (a.segments <+: b.segments))

/-- Neither of the two paths leads to the other. -/
def Apart (a b : Path) : Prop := ¬ a.LeadsTo b ∧ ¬ b.LeadsTo a

namespace LeadsTo

theorem refl (path : Path) : path.LeadsTo path := List.prefix_refl _

theorem trans {a b c : Path} (hab : a.LeadsTo b) (hbc : b.LeadsTo c) : a.LeadsTo c :=
  List.IsPrefix.trans hab hbc

/-- The paths that lead to one path form a chain. -/
theorem total {a b c : Path} (ha : a.LeadsTo c) (hb : b.LeadsTo c) :
    a.LeadsTo b ∨ b.LeadsTo a :=
  List.prefix_or_prefix_of_prefix ha hb

/-- A path that leads somewhere is not one that does not. -/
theorem ne_of_not_leadsTo {a b c : Path} (ha : a.LeadsTo c) (hb : ¬ b.LeadsTo c) : a ≠ b := by
  rintro rfl
  exact hb ha

end LeadsTo

theorem isAbove_iff {a b : Path} : a.isAbove b = true ↔ a.LeadsTo b ∧ a ≠ b := by
  simp only [isAbove, Bool.and_eq_true, decide_eq_true_eq, beq_iff_eq]
  constructor
  · rintro ⟨hlt, htake⟩
    refine ⟨List.prefix_iff_eq_take.mpr htake.symm, ?_⟩
    rintro rfl
    exact Nat.lt_irrefl _ hlt
  · rintro ⟨hleads, hne⟩
    have hle : a.length ≤ b.length := List.IsPrefix.length_le hleads
    refine ⟨Nat.lt_of_le_of_ne hle ?_, (List.prefix_iff_eq_take.mp hleads).symm⟩
    intro heq
    exact hne (ext (List.IsPrefix.eq_of_length hleads heq))

theorem leadsTo_iff {a b : Path} : a.LeadsTo b ↔ a = b ∨ a.isAbove b = true := by
  rw [isAbove_iff]
  constructor
  · intro hleads
    by_cases heq : a = b
    · exact Or.inl heq
    · exact Or.inr ⟨hleads, heq⟩
  · rintro (rfl | ⟨hleads, _⟩)
    · exact .refl a
    · exact hleads

namespace Apart

theorem symm {a b : Path} (h : a.Apart b) : b.Apart a := ⟨h.2, h.1⟩

theorem ne {a b : Path} (h : a.Apart b) : a ≠ b := by
  rintro rfl
  exact h.1 (.refl a)

/-- Two different paths of which neither lies above the other are apart. -/
theorem of_isAbove {a b : Path} (hne : a ≠ b) (hab : a.isAbove b = false)
    (hba : b.isAbove a = false) : a.Apart b := by
  constructor
  · intro hleads
    rcases leadsTo_iff.mp hleads with heq | habove
    · exact hne heq
    · simp [hab] at habove
  · intro hleads
    rcases leadsTo_iff.mp hleads with heq | habove
    · exact hne heq.symm
    · simp [hba] at habove

/-- What lies at or below one of two paths apart does not lead to the other. -/
theorem not_leadsTo {a b below : Path} (h : a.Apart b) (hbelow : a.LeadsTo below) :
    ¬ below.LeadsTo b :=
  fun hleads => h.1 (hbelow.trans hleads)

end Apart

/-- The ancestors of a path and the path itself are its walk, cut off at each length. -/
theorem ancestors_append_self (path : Path) :
    path.ancestors ++ [path] =
      (List.range (path.length + 1)).filterMap fun n => ofSegments? (path.segments.take n) := by
  have hself : ofSegments? (path.segments.take path.length) = some path := by
    rw [length, List.take_length, ofSegments?, dif_pos path.nonempty]
  rw [List.range_succ, List.filterMap_append]
  simp only [List.filterMap_cons, hself, List.filterMap_nil]
  rfl

theorem ofSegments?_eq_some_iff {segments : List Segment} {path : Path} :
    ofSegments? segments = some path ↔ segments = path.segments := by
  rw [ofSegments?]
  split
  next hnonempty =>
    rw [Option.some.injEq]
    constructor
    · rintro rfl
      rfl
    · intro heq
      exact ext heq
  next hempty =>
    simp only [ne_eq, Classical.not_not] at hempty
    subst hempty
    constructor
    · intro h
      cases h
    · intro heq
      exact absurd heq.symm path.nonempty

/-- The paths that lead to a path are its ancestors and itself. -/
theorem mem_ancestors_append_self_iff {path other : Path} :
    other ∈ path.ancestors ++ [path] ↔ other.LeadsTo path := by
  rw [ancestors_append_self, List.mem_filterMap]
  simp only [ofSegments?_eq_some_iff, List.mem_range]
  constructor
  · rintro ⟨n, _, heq⟩
    rw [LeadsTo, ← heq]
    exact List.take_prefix n path.segments
  · intro hleads
    refine ⟨other.length, ?_, (List.prefix_iff_eq_take.mp hleads).symm⟩
    exact Nat.lt_succ_of_le hleads.length_le

/-- The ancestors of a path and itself stand coarse to fine. -/
theorem pairwise_length_ancestors_append_self (path : Path) :
    (path.ancestors ++ [path]).Pairwise fun upper lower => upper.length < lower.length := by
  rw [ancestors_append_self, List.pairwise_filterMap]
  refine List.pairwise_lt_range.imp_of_mem ?_
  intro m n _ hn hlt upper hupper lower hlower
  rw [ofSegments?_eq_some_iff] at hupper hlower
  have hle : n ≤ path.segments.length := Nat.le_of_lt_succ (List.mem_range.mp hn)
  rw [length, length, ← hupper, ← hlower, List.length_take, List.length_take]
  omega

/-- No path comes twice among the ancestors of a path and itself. -/
theorem nodup_ancestors_append_self (path : Path) : (path.ancestors ++ [path]).Nodup := by
  refine path.pairwise_length_ancestors_append_self.imp ?_
  rintro upper _ hlt rfl
  exact Nat.lt_irrefl upper.length hlt

end Path

end PropertyTree
