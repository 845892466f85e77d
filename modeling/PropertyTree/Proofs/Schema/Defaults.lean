import PropertyTree.Config.Schema
import PropertyTree.Proofs.Except

/-! # Values and defaults that fit

A value fits at a path when the path is declared and its kind accepts the value, which is what the
schema checks. In a schema that builds, every default fits too: those of the built-in properties by
inspection, those of configured entries because they were checked when the entry was read. A later
entry replaces the whole descriptor of an earlier one, so the two never mix.
-/

namespace PropertyTree

namespace Schema

/-- The path is declared, and its kind accepts the value. -/
def Fits (schema : Schema) (path : Path) (value : Value) : Prop :=
  ∃ descriptor, schema.get? path = some descriptor ∧ descriptor.kind.accepts value = true

theorem check_of_get?_some {schema : Schema} {path : Path} {descriptor : Descriptor}
    (hget : schema.get? path = some descriptor) (value : Value) :
    schema.check path value =
      if descriptor.kind.accepts value then .ok ()
      else .error (.typeMismatch path.dotted descriptor.kind.display value.display) := by
  rw [check, lookup, hget]
  rfl

theorem check_eq_ok_iff {schema : Schema} {path : Path} {value : Value} :
    schema.check path value = .ok () ↔ schema.Fits path value := by
  cases hget : schema.get? path with
  | none => simp [check, lookup, Fits, hget, bind_eq_ok_iff]
  | some descriptor => simp [check_of_get?_some hget, Fits, hget]

theorem Fits.declares {schema : Schema} {path : Path} {value : Value}
    (h : schema.Fits path value) : schema.declares path = true := by
  obtain ⟨descriptor, hget, _⟩ := h
  rw [Schema.declares, hget]
  rfl

/-- What is wrong with a leaf of a snapshot, if it does not fit. -/
def misfit? (schema : Schema) (path : Path) (value : Value) : Option SnapshotError :=
  match schema.get? path with
  | none => some (.unknownProperty path.dotted)
  | some descriptor =>
    if descriptor.kind.accepts value then none
    else some (.schema (.typeMismatch path.dotted descriptor.kind.display value.display))

theorem misfit?_eq_none_iff {schema : Schema} {path : Path} {value : Value} :
    schema.misfit? path value = none ↔ schema.Fits path value := by
  rw [misfit?, Fits]
  cases schema.get? path <;> simp

/-- Every declared default fits. -/
def DefaultsFit (schema : Schema) : Prop :=
  ∀ path descriptor, schema.get? path = some descriptor → descriptor.DefaultFits

theorem defaultsFit_empty : DefaultsFit .empty := by
  intro path descriptor hget
  cases hget

theorem DefaultsFit.declare {schema : Schema} (h : schema.DefaultsFit) (path : Path)
    {descriptor : Descriptor} (hfits : descriptor.DefaultFits) :
    (schema.declare path descriptor).DefaultsFit := by
  intro other found hget
  rw [Schema.declare, Dictionary.get?_insert] at hget
  split at hget
  next =>
    cases hget
    exact hfits
  next => exact h other found hget

theorem DefaultsFit.foldl_declare {schema : Schema} (h : schema.DefaultsFit)
    {declared : List (Path × Descriptor)} (hfits : ∀ entry ∈ declared, entry.2.DefaultFits) :
    (declared.foldl (fun schema (path, descriptor) => schema.declare path descriptor)
      schema).DefaultsFit := by
  refine List.foldlRecOn declared _ h ?_
  intro schema h entry hmem
  exact h.declare entry.1 (hfits entry hmem)

theorem DefaultsFit.fits_of_defaultFor? {schema : Schema} (h : schema.DefaultsFit) {path : Path}
    {value : Value} (hdefault : schema.defaultFor? path = some value) : schema.Fits path value := by
  obtain ⟨descriptor, hget, hvalue⟩ := Option.bind_eq_some_iff.mp hdefault
  exact ⟨descriptor, hget, h path descriptor hget value hvalue⟩

end Schema

theorem Descriptor.defaultFits_iff {descriptor : Descriptor} :
    descriptor.DefaultFits ↔ descriptor.default.all descriptor.kind.accepts = true := by
  rw [DefaultFits]
  cases descriptor.default <;> simp

namespace Schema

theorem defaultFits_of_mem_builtinProperties :
    ∀ property ∈ builtinProperties, property.2.DefaultFits := by
  simp only [Descriptor.defaultFits_iff]
  decide

theorem builtin_defaultsFit : builtin.DefaultsFit := by
  refine List.foldlRecOn builtinProperties _ defaultsFit_empty ?_
  rintro schema h ⟨key, descriptor⟩ hmem
  cases hparse : Path.parse key with
  | error error => simpa only [hparse] using h
  | ok path =>
      simpa only [hparse] using h.declare path (defaultFits_of_mem_builtinProperties _ hmem)

end Schema

namespace PropertyEntry

/-- A default that an entry gives was checked against the kind of the entry. -/
theorem defaultFits_of_default? {entry : PropertyEntry} {index : Nat} {kind : Kind}
    {default : Option Value} (h : entry.default? index kind = .ok default) :
    (Descriptor.mk kind default).DefaultFits := by
  rw [default?] at h
  intro value hvalue
  split at h
  next =>
    cases h
    cases hvalue
  next json _ =>
    obtain ⟨given, _, h⟩ := bind_eq_ok_iff.mp h
    split at h
    next haccepts =>
      cases h
      cases hvalue
      exact haccepts
    next => cases h

theorem defaultFits_of_declaration {entry : PropertyEntry} {index : Nat}
    {declared : Path × Descriptor} (h : entry.declaration index = .ok declared) :
    declared.2.DefaultFits := by
  obtain ⟨path, _, h⟩ := bind_eq_ok_iff.mp h
  obtain ⟨kind, _, h⟩ := bind_eq_ok_iff.mp h
  obtain ⟨default, hdefault, h⟩ := bind_eq_ok_iff.mp h
  cases h
  exact defaultFits_of_default? hdefault

end PropertyEntry

namespace SchemaSection

theorem defaultFits_of_declarations {entries : List PropertyEntry} {index : Nat}
    {declared : List (Path × Descriptor)} (h : declarations index entries = .ok declared) :
    ∀ entry ∈ declared, entry.2.DefaultFits := by
  induction entries generalizing index declared with
  | nil =>
      cases h
      exact List.forall_mem_nil _
  | cons entry rest ih =>
      obtain ⟨first, hfirst, h⟩ := bind_eq_ok_iff.mp h
      obtain ⟨others, hothers, h⟩ := bind_eq_ok_iff.mp h
      cases h
      exact List.forall_mem_cons.mpr
        ⟨PropertyEntry.defaultFits_of_declaration hfirst, ih hothers⟩

/-- In a schema that builds, every default fits. -/
theorem defaultsFit_of_build {spec : SchemaSection} {schema : Schema}
    (hbuild : spec.build = .ok schema) : schema.DefaultsFit := by
  obtain ⟨declared, hdeclared, hbuild⟩ := bind_eq_ok_iff.mp hbuild
  obtain ⟨_, _, hschema⟩ := bind_eq_ok_iff.mp hbuild
  cases hschema
  have hbase : spec.base.DefaultsFit := by
    rw [base]
    split
    next => exact Schema.builtin_defaultsFit
    next => exact Schema.defaultsFit_empty
  exact hbase.foldl_declare (defaultFits_of_declarations hdeclared)

end SchemaSection

end PropertyTree
