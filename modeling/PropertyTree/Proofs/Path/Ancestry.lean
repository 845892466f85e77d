import Mathlib.Data.List.Induction
import Mathlib.Logic.Relation
import PropertyTree.Proofs.Path.Keys

/-! # The ancestors of a path

That a path lies above another can be told in four ways: from their segments, from the list of the
ancestors, from the dotted keys, and by going from parent to parent. The keys tell it because a
segment has no dots, so that `lamp` does not lie above `lamps.on`. The ancestors of a path stand
coarse to fine, each above the next, and this is also the order of paths.
-/

namespace PropertyTree

/-- A text that is cut at one of its dots has the parts before the dot and those after it. -/
theorem splitDots_append_dot (text rest : List Char) :
    splitDots (text ++ '.' :: rest) = splitDots text ++ splitDots rest := by
  induction text with
  | nil => exact splitDots_cons_dot rest
  | cons c text ih =>
      by_cases hc : c = '.'
      · subst hc
        rw [List.cons_append, splitDots_cons_dot, splitDots_cons_dot, ih, List.cons_append]
      · obtain ⟨part, parts, hsplit, hcons⟩ := exists_splitDots text
        obtain ⟨first, others, hall, hconsAll⟩ := exists_splitDots (text ++ '.' :: rest)
        rw [ih, hsplit, List.cons_append, List.cons.injEq] at hall
        rw [List.cons_append, hconsAll c hc, hcons c hc, ← hall.1, ← hall.2, List.cons_append]

namespace Path

variable {above below path : Path}

/-- A path lies above those that go on from it. -/
theorem isAbove_iff_exists_append :
    above.isAbove below = true ↔
      ∃ further, further ≠ [] ∧ below.segments = above.segments ++ further := by
  rw [isAbove_iff]
  constructor
  · rintro ⟨⟨further, heq⟩, hne⟩
    refine ⟨further, ?_, heq.symm⟩
    rintro rfl
    rw [List.append_nil] at heq
    exact hne (ext heq)
  · rintro ⟨further, hfurther, heq⟩
    refine ⟨⟨further, heq.symm⟩, ?_⟩
    rintro rfl
    exact hfurther (List.self_eq_append_right.mp heq)

theorem isAbove_iff_mem_ancestors : above.isAbove below = true ↔ above ∈ below.ancestors := by
  rw [isAbove_iff, mem_ancestors_iff, leadsTo_iff_texts, Ne, Ne, texts_inj]

theorem isAbove_irrefl (path : Path) : path.isAbove path = false := by
  rw [Bool.eq_false_iff]
  intro habove
  exact (isAbove_iff.mp habove).2 rfl

theorem isAbove_trans {a b c : Path} (hab : a.isAbove b = true) (hbc : b.isAbove c = true) :
    a.isAbove c = true := by
  obtain ⟨further, hfurther, hb⟩ := isAbove_iff_exists_append.mp hab
  obtain ⟨beyond, _, hc⟩ := isAbove_iff_exists_append.mp hbc
  refine isAbove_iff_exists_append.mpr ⟨further ++ beyond, ?_, ?_⟩
  · exact List.append_ne_nil_of_left_ne_nil hfurther beyond
  · rw [hc, hb, List.append_assoc]

/-- Of two paths that lead to one, the shorter lies above the longer. -/
theorem LeadsTo.isAbove_of_length_lt {a b c : Path} (ha : a.LeadsTo c) (hb : b.LeadsTo c)
    (hlt : a.length < b.length) : a.isAbove b = true := by
  rw [isAbove_iff]
  refine ⟨List.prefix_of_prefix_length_le ha hb (Nat.le_of_lt hlt), ?_⟩
  rintro rfl
  exact Nat.lt_irrefl _ hlt

/-- Each of the ancestors of a path lies above all that come after it, and above the path. -/
theorem pairwise_isAbove_ancestors_append_self (path : Path) :
    (path.ancestors ++ [path]).Pairwise fun upper lower => upper.isAbove lower = true := by
  refine path.pairwise_length_ancestors_append_self.imp_of_mem ?_
  intro upper lower hupper hlower hlt
  rw [mem_ancestors_append_self_iff] at hupper hlower
  exact hupper.isAbove_of_length_lt hlower hlt

/-- Of two paths that lead to one, either is the other or lies above it. -/
theorem LeadsTo.eq_or_isAbove {a b c : Path} (ha : a.LeadsTo c) (hb : b.LeadsTo c) :
    a = b ∨ a.isAbove b = true ∨ b.isAbove a = true := by
  rcases ha.total hb with hleads | hleads
  · exact (leadsTo_iff.mp hleads).imp_right Or.inl
  · exact (leadsTo_iff.mp hleads).imp Eq.symm Or.inr

theorem segments_lt_append (steps : List Segment) {further : List Segment}
    (hfurther : further ≠ []) : steps < steps ++ further := by
  induction steps with
  | nil =>
      cases further with
      | nil => exact absurd rfl hfurther
      | cons step rest => exact List.nil_lt_cons step rest
  | cons step steps ih => exact List.cons_lt_cons_iff.mpr (Or.inr ⟨rfl, ih⟩)

theorem lt_of_isAbove (habove : above.isAbove below = true) : above < below := by
  obtain ⟨further, hfurther, hbelow⟩ := isAbove_iff_exists_append.mp habove
  change above.segments < below.segments
  rw [hbelow]
  exact segments_lt_append above.segments hfurther

/-- There is an ancestor for each segment but the last. -/
theorem length_ancestors (path : Path) : path.ancestors.length + 1 = path.length := by
  obtain ⟨count, hcount⟩ := Nat.exists_eq_succ_of_ne_zero
    (mt List.eq_nil_of_length_eq_zero path.nonempty)
  rw [ancestors, length, hcount, List.range_succ_eq_map, List.filterMap_cons]
  have hnone : ofSegments? (path.segments.take 0) = none := rfl
  simp only [hnone, List.filterMap_map]
  -- From the first segment on there is a path.
  rw [List.filterMap_length_eq_length.mpr, List.length_range]
  intro n _
  rw [Function.comp_apply, ofSegments?, dif_pos]
  · rfl
  · rw [ne_eq, List.take_eq_nil_iff]
    simp [path.nonempty]

/-- The dotted key of a path is cut into the texts of its segments. -/
theorem isCutInto_dotted (path : Path) : IsCutInto path.dotted path.texts :=
  ⟨path.texts_ne_nil, path.areSegments_texts.undotted_of_mem, rfl⟩

/-- The key of a path that lies above, and a dot, open the key. -/
theorem isAbove_iff_startsWith :
    above.isAbove below = true ↔ below.dotted.startsWith (above.dotted ++ ".") = true := by
  rw [String.startsWith_string_iff, String.toList_append, isAbove_iff_exists_append]
  constructor
  · rintro ⟨further, hfurther, hbelow⟩
    have hkey : below.dotted = above.dotted ++ "." ++ joinDots (further.map (·.text)) := by
      rw [dotted, texts, hbelow, List.map_append]
      refine String.intercalate_append_of_ne_nil above.texts_ne_nil ?_
      rwa [Ne, List.map_eq_nil_iff]
    rw [hkey, String.toList_append, String.toList_append]
    exact List.prefix_append _ _
  · rintro ⟨rest, hrest⟩
    rw [List.append_assoc] at hrest
    have htexts : below.texts = above.texts ++ (splitDots rest).map String.ofList := by
      rw [isCutInto_iff.mp below.isCutInto_dotted, isCutInto_iff.mp above.isCutInto_dotted,
        ← hrest, ← List.map_append, ← splitDots_append_dot]
      rfl
    have hleads : above.texts <+: below.texts := htexts ▸ List.prefix_append _ _
    obtain ⟨further, hfurther⟩ := leadsTo_iff_texts.mpr hleads
    refine ⟨further, ?_, hfurther.symm⟩
    rintro rfl
    -- A dot has something after it that counts as a part, even if it is empty.
    rw [List.append_nil] at hfurther
    rw [texts, texts, hfurther, List.self_eq_append_right, List.map_eq_nil_iff] at htexts
    exact splitDots_ne_nil rest htexts

/-- One or more steps from parent to parent lead from a path up to another. -/
def ClimbsTo : Path → Path → Prop :=
  Relation.TransGen fun path above => path.parent? = some above

theorem isAbove_of_parent? (hparent : path.parent? = some above) : above.isAbove path = true := by
  rw [parent?, ofSegments?_eq_some_iff] at hparent
  refine isAbove_iff_exists_append.mpr ⟨[path.leaf], List.cons_ne_nil _ _, ?_⟩
  rw [← hparent, leaf, List.dropLast_concat_getLast]

theorem isAbove_of_climbsTo (hclimbs : below.ClimbsTo above) : above.isAbove below = true := by
  induction hclimbs with
  | single hparent => exact isAbove_of_parent? hparent
  | tail _ hparent ih => exact isAbove_trans (isAbove_of_parent? hparent) ih

theorem climbsTo_of_isAbove (habove : above.isAbove below = true) : below.ClimbsTo above := by
  obtain ⟨further, hfurther, hbelow⟩ := isAbove_iff_exists_append.mp habove
  clear habove
  -- The segments that follow are taken off one by one, from the end.
  induction further using List.reverseRecOn generalizing below with
  | nil => exact absurd rfl hfurther
  | append_singleton rest last ih =>
      have hnonempty : above.segments ++ rest ≠ [] :=
        List.append_ne_nil_of_left_ne_nil above.nonempty rest
      have hparent : below.parent? = some ⟨above.segments ++ rest, hnonempty⟩ := by
        rw [parent?, ofSegments?_eq_some_iff, hbelow, ← List.append_assoc, List.dropLast_concat]
      by_cases hrest : rest = []
      · subst hrest
        have hself : (⟨above.segments ++ [], hnonempty⟩ : Path) = above :=
          ext (List.append_nil _)
        exact .single (hself ▸ hparent)
      · exact .head hparent (ih hrest rfl)

/-- What it is to lie above a path has one meaning: to be among its ancestors, to have a key that
opens its key up to a dot, and to be reached from it by steps to the parent. There is an ancestor
for each segment but the last; they stand in path order, each longer than those before it, and the
path comes after them all. No path lies above itself, what lies above an ancestor lies above the
path, and any two ancestors of a path are one or lie one above the other. -/
theorem ancestry_agrees :
    (∀ above below : Path,
      (above.isAbove below = true ↔ above ∈ below.ancestors) ∧
      (above.isAbove below = true ↔ below.dotted.startsWith (above.dotted ++ ".") = true) ∧
      (above.isAbove below = true ↔ below.ClimbsTo above)) ∧
    (∀ path : Path, path.ancestors.length + 1 = path.length ∧
      path.ancestors.Pairwise (fun upper lower => upper.length < lower.length ∧ upper < lower) ∧
      ∀ above ∈ path.ancestors, above < path) ∧
    (∀ path : Path, path.isAbove path = false) ∧
    (∀ a b c : Path, a.isAbove b = true → b.isAbove c = true → a.isAbove c = true) ∧
    ∀ left right path : Path, left ∈ path.ancestors → right ∈ path.ancestors →
      left = right ∨ left.isAbove right = true ∨ right.isAbove left = true := by
  refine ⟨fun above below => ⟨isAbove_iff_mem_ancestors, isAbove_iff_startsWith,
    climbsTo_of_isAbove, isAbove_of_climbsTo⟩, fun path => ⟨path.length_ancestors, ?_, ?_⟩,
    isAbove_irrefl, fun a b c => isAbove_trans, ?_⟩
  · obtain ⟨habove, _, _⟩ := List.pairwise_append.mp path.pairwise_isAbove_ancestors_append_self
    obtain ⟨hlength, _, _⟩ := List.pairwise_append.mp path.pairwise_length_ancestors_append_self
    exact hlength.and (habove.imp lt_of_isAbove)
  · intro above hmem
    exact lt_of_isAbove (isAbove_iff_mem_ancestors.mpr hmem)
  · intro left right path hleft hright
    rw [← isAbove_iff_mem_ancestors, isAbove_iff] at hleft hright
    exact hleft.1.eq_or_isAbove hright.1

/-- A switch of a lamp, and one of the lamps. -/
theorem ancestry_agrees_lamp :
    let last : Segment := ⟨"on", by decide, by decide⟩
    let steps : List Segment := [⟨"lamp", by decide, by decide⟩, ⟨"switch", by decide, by decide⟩]
    let lamp : Path := ⟨steps.take 1, by decide⟩
    let switch : Path := ⟨steps, by decide⟩
    let on : Path := ⟨steps ++ [last], by decide⟩
    let lamps : Path := ⟨[⟨"lamps", by decide, by decide⟩, last], List.cons_ne_nil _ _⟩
    lamp.isAbove switch = true ∧ switch.isAbove on = true ∧ lamp.isAbove on = true ∧
      on.dotted.startsWith (lamp.dotted ++ ".") = true ∧ on.ClimbsTo lamp ∧ lamp < on ∧
      (lamp = switch ∨ lamp.isAbove switch = true ∨ switch.isAbove lamp = true) ∧
      lamp ∉ lamps.ancestors ∧ ¬ lamps.dotted.startsWith (lamp.dotted ++ ".") = true ∧
      ¬ lamps.ClimbsTo lamp := by
  intro last steps lamp switch on lamps
  obtain ⟨hmeans, hordered, _, htrans, hchain⟩ := ancestry_agrees
  have hlamp : lamp.isAbove switch = true := by decide
  have hswitch : switch.isAbove on = true := by decide
  have hon := htrans lamp switch on hlamp hswitch
  have hlamps : ¬ lamp.isAbove lamps = true := by decide
  obtain ⟨hmem, hkey, hclimbs⟩ := hmeans lamp on
  obtain ⟨hmemLamps, hkeyLamps, hclimbsLamps⟩ := hmeans lamp lamps
  exact ⟨hlamp, hswitch, hon, hkey.mp hon, hclimbs.mp hon,
    (hordered on).2.2 lamp (hmem.mp hon),
    hchain lamp switch on (hmem.mp hon) ((hmeans switch on).1.mp hswitch),
    mt hmemLamps.mpr hlamps, mt hkeyLamps.mpr hlamps, mt hclimbsLamps.mpr hlamps⟩

end Path

end PropertyTree
