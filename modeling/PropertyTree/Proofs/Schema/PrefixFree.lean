import PropertyTree.Config.Schema
import PropertyTree.Proofs.Except
import PropertyTree.Proofs.Keyed
import PropertyTree.Proofs.Path.Above

/-! # Built schemas are prefix-free

Every pair of declared paths either meets the overlap check of a configured entry or consists of
built-in paths, none of which lies above another. Two different declared paths are therefore apart.
-/

namespace PropertyTree

namespace Schema

theorem declares_iff_mem_keys {schema : Schema} {path : Path} :
    schema.declares path = true ↔ path ∈ schema.keys := by
  rw [declares, Option.isSome_iff_exists, Dictionary.mem_keys_iff]

theorem declares_declare (schema : Schema) (path other : Path) (descriptor : Descriptor) :
    (schema.declare path descriptor).declares other = true ↔
      path = other ∨ schema.declares other = true := by
  rw [declares, declare, Dictionary.get?_insert]
  by_cases heq : path = other <;> simp [heq, declares]

theorem declares_foldl_declare (declared : List (Path × Descriptor)) (schema : Schema)
    (path : Path) :
    (declared.foldl (fun schema (path, descriptor) => schema.declare path descriptor)
        schema).declares path = true ↔
      path ∈ declared.map (·.1) ∨ schema.declares path = true := by
  induction declared generalizing schema with
  | nil => simp
  | cons entry rest ih =>
      rw [List.foldl_cons, ih, declares_declare, List.map_cons, List.mem_cons, or_left_comm,
        ← or_assoc, eq_comm (a := path)]

/-- Different declared paths of a prefix-free schema are apart. -/
theorem PrefixFree.apart {schema : Schema} (hfree : schema.PrefixFree) {a b : Path}
    (ha : schema.declares a = true) (hb : schema.declares b = true) (hne : a ≠ b) : a.Apart b :=
  .of_isAbove hne (hfree a (declares_iff_mem_keys.mp ha) b (declares_iff_mem_keys.mp hb))
    (hfree b (declares_iff_mem_keys.mp hb) a (declares_iff_mem_keys.mp ha))

/-- What a fold of declarations declares, one of them does. -/
theorem exists_of_foldl_declares {α : Type} {step : Schema → α → Schema} {declaring : α → Prop}
    {path : Path}
    (hstep : ∀ schema entry, (step schema entry).declares path = true →
      declaring entry ∨ schema.declares path = true)
    (entries : List α) (schema : Schema)
    (h : (entries.foldl step schema).declares path = true) :
    (∃ entry ∈ entries, declaring entry) ∨ schema.declares path = true := by
  induction entries generalizing schema with
  | nil => exact Or.inr h
  | cons entry rest ih =>
      rw [List.foldl_cons] at h
      rcases ih _ h with ⟨found, hfound, hdeclaring⟩ | hdeclared
      · exact Or.inl ⟨found, List.mem_cons_of_mem _ hfound, hdeclaring⟩
      · rcases hstep schema entry hdeclared with hdeclaring | hbefore
        · exact Or.inl ⟨entry, List.mem_cons_self, hdeclaring⟩
        · exact Or.inr hbefore

/-- A built-in path is read from the key of a built-in property. -/
theorem exists_key_of_builtin_declares {path : Path} (h : builtin.declares path = true) :
    ∃ property ∈ builtinProperties, Path.parse property.1 = .ok path := by
  refine (exists_of_foldl_declares ?_ builtinProperties .empty h).resolve_right ?_
  · rintro schema ⟨key, descriptor⟩ hdeclared
    cases hparse : Path.parse key with
    | error error =>
        simp only [hparse] at hdeclared
        exact Or.inr hdeclared
    | ok parsed =>
        simp only [hparse] at hdeclared
        rcases (declares_declare _ _ _ _).mp hdeclared with rfl | hdeclared
        · exact Or.inl rfl
        · exact Or.inr hdeclared
  · intro hempty
    cases hempty

theorem builtin_prefixFree : builtin.PrefixFree := by
  have hpaths : ∀ a ∈ builtinProperties.filterMap (fun p => (Path.parse p.1).toOption),
      ∀ b ∈ builtinProperties.filterMap (fun p => (Path.parse p.1).toOption),
      a.isAbove b = false := by
    decide +kernel
  have hmem : ∀ path ∈ builtin.keys,
      path ∈ builtinProperties.filterMap fun p => (Path.parse p.1).toOption := by
    intro path hpath
    obtain ⟨property, hproperty, hparse⟩ :=
      exists_key_of_builtin_declares (declares_iff_mem_keys.mpr hpath)
    exact List.mem_filterMap.mpr ⟨property, hproperty, by rw [hparse]; rfl⟩
  exact fun a ha b hb => hpaths a (hmem a ha) b (hmem b hb)

end Schema

namespace SchemaSection

/-- A passed overlap check found nothing above or below any of the paths. -/
theorem not_isAbove_of_checkOverlaps {schema : Schema} {index : Nat} {paths : List Path}
    (hcheck : checkOverlaps schema index paths = .ok ()) {path other : Path}
    (hpath : path ∈ paths) (hother : other ∈ schema.keys) :
    path.isAbove other = false ∧ other.isAbove path = false := by
  induction paths generalizing index with
  | nil => cases hpath
  | cons first rest ih =>
      rw [checkOverlaps] at hcheck
      split at hcheck
      next => cases hcheck
      next hnone =>
        rcases List.mem_cons.mp hpath with rfl | hmem
        · simpa using List.find?_eq_none.mp hnone other hother
        · exact ih hcheck hmem

/-- A schema that builds is prefix-free. -/
theorem prefixFree_of_build {spec : SchemaSection} {schema : Schema}
    (hbuild : spec.build = .ok schema) : schema.PrefixFree := by
  obtain ⟨declared, _, hbuild⟩ := bind_eq_ok_iff.mp hbuild
  obtain ⟨_, hcheck, hschema⟩ := bind_eq_ok_iff.mp hbuild
  cases hschema
  intro a ha b hb
  have hcases := fun path => Schema.declares_foldl_declare declared spec.base path
  rcases (hcases a).mp (Schema.declares_iff_mem_keys.mpr ha) with hmem | hbaseA
  · exact (not_isAbove_of_checkOverlaps hcheck hmem hb).1
  · rcases (hcases b).mp (Schema.declares_iff_mem_keys.mpr hb) with hmem | hbaseB
    · exact (not_isAbove_of_checkOverlaps hcheck hmem ha).2
    · -- Neither path comes from an entry, so the check says nothing: both are built in.
      have hbuiltin : spec.base = .builtin := by
        rw [base] at hbaseA ⊢
        split
        next => rfl
        next hnone => rw [if_neg hnone] at hbaseA; cases hbaseA
      rw [hbuiltin, Schema.declares_iff_mem_keys] at hbaseA hbaseB
      exact Schema.builtin_prefixFree a hbaseA b hbaseB

/-- A section with two properties under one branch. -/
def lamp : SchemaSection :=
  ⟨some false, [⟨"lamp.on", "bool", none, []⟩, ⟨"lamp.dim", "bool", none, []⟩]⟩

end SchemaSection

def Path.lampOn : Path :=
  ⟨[⟨"lamp", by decide, by decide⟩, ⟨"on", by decide, by decide⟩], by decide⟩

def Path.lampDim : Path :=
  ⟨[⟨"lamp", by decide, by decide⟩, ⟨"dim", by decide, by decide⟩], by decide⟩

/-- The branch over both. -/
def Path.lampBranch : Path := ⟨[⟨"lamp", by decide, by decide⟩], by decide⟩

def Schema.lamp : Schema :=
  (Schema.declare .empty .lampDim ⟨.bool, none⟩).declare .lampOn ⟨.bool, none⟩

theorem SchemaSection.build_lamp : lamp.build = .ok .lamp := rfl

end PropertyTree
