import PropertyTree.Proofs.Schema.Defaults
import PropertyTree.Proofs.Schema.PrefixFree

/-! # Which sections build

A section builds when every entry makes sense on its own and no declared path lies above another.
The overlap check starts from the paths of the entries only; pairs of built-in paths need none. The
first entry in the way decides the error, those that make no sense on their own before those whose
paths overlap.
-/

namespace PropertyTree

/-- One of the two paths lies above the other. -/
def Path.Overlaps (path other : Path) : Prop :=
  path.isAbove other = true ∨ other.isAbove path = true

namespace PropertyEntry

end PropertyEntry

namespace Schema

theorem get?_declare (schema : Schema) (path other : Path) (descriptor : Descriptor) :
    (schema.declare path descriptor).get? other =
      if path = other then some descriptor else schema.get? other :=
  Dictionary.get?_insert schema path other descriptor

theorem get?_foldl_declare_of_not_mem {declared : List (Path × Descriptor)} {path : Path}
    (hpath : path ∉ declared.map (·.1)) (schema : Schema) :
    (declared.foldl (fun schema (path, descriptor) => schema.declare path descriptor)
      schema).get? path = schema.get? path := by
  induction declared generalizing schema with
  | nil => rfl
  | cons first rest ih =>
      obtain ⟨hne, hrest⟩ := not_or.mp (mt List.mem_cons.mpr hpath)
      rw [List.foldl_cons, ih hrest, get?_declare, if_neg (Ne.symm hne)]

/-- What is declared last at a path stays. -/
theorem get?_foldl_declare_of_last {before after : List (Path × Descriptor)} {path : Path}
    (hlast : path ∉ after.map (·.1)) (descriptor : Descriptor) (schema : Schema) :
    ((before ++ (path, descriptor) :: after).foldl
      (fun schema (path, descriptor) => schema.declare path descriptor) schema).get? path =
        some descriptor := by
  rw [List.foldl_append, List.foldl_cons, get?_foldl_declare_of_not_mem hlast, get?_declare,
    if_pos rfl]

end Schema

namespace SchemaSection

/-- The path is built in, when the section starts from the built-in properties, or is the path of an
entry. -/
def Declares (spec : SchemaSection) (path : Path) : Prop :=
  spec.base.declares path = true ∨ ∃ entry ∈ spec.properties, Path.parse entry.path = .ok path

/-- What the entries declare, position by position. -/
theorem getElem?_of_declarations {entries : List PropertyEntry} {index : Nat}
    {declared : List (Path × Descriptor)} (h : declarations index entries = .ok declared)
    (i : Nat) :
    entries[i]?.map (fun entry => entry.declaration (index + i)) = declared[i]?.map .ok := by
  induction entries generalizing index declared i with
  | nil =>
      cases h
      rfl
  | cons entry rest ih =>
      obtain ⟨first, hfirst, h⟩ := bind_eq_ok_iff.mp h
      obtain ⟨others, hothers, h⟩ := bind_eq_ok_iff.mp h
      cases h
      cases i with
      | zero => exact congrArg some hfirst
      | succ i =>
          have hshift : index + 1 + i = index + (i + 1) := by omega
          rw [List.getElem?_cons_succ, List.getElem?_cons_succ, ← ih hothers, hshift]

theorem overlap?_eq_none_iff {schema : Schema} {path : Path} :
    overlap? schema path = none ↔
      ∀ other, schema.declares other = true → ¬ path.Overlaps other := by
  simp only [overlap?, List.find?_eq_none, Schema.declares_iff_mem_keys, Bool.or_eq_true,
    Path.Overlaps]

/-- The entries of the section read as `declared`, and the schema is made of these. -/
structure Reads (spec : SchemaSection) (declared : List (Path × Descriptor)) (schema : Schema) :
    Prop where
  declarations_eq : declarations 0 spec.properties = .ok declared
  schema_eq : declared.foldl (fun schema (path, descriptor) => schema.declare path descriptor)
    spec.base = schema

namespace Reads

variable {spec : SchemaSection} {declared : List (Path × Descriptor)} {schema : Schema}

theorem getElem?_eq_some_iff (h : spec.Reads declared schema) {i : Nat}
    {found : Path × Descriptor} :
    declared[i]? = some found ↔
      ∃ entry : PropertyEntry, spec.properties[i]? = some entry ∧
        entry.declaration i = .ok found := by
  have hmap := getElem?_of_declarations h.declarations_eq i
  rw [Nat.zero_add] at hmap
  constructor
  · intro hfound
    rw [hfound] at hmap
    exact Option.map_eq_some_iff.mp hmap
  · rintro ⟨entry, hentry, hdeclaration⟩
    rw [hentry, Option.map_some, hdeclaration] at hmap
    obtain ⟨other, hother, heq⟩ := Option.map_eq_some_iff.mp hmap.symm
    cases heq
    exact hother

end Reads

theorem reads_of_build {spec : SchemaSection} {schema : Schema} (h : spec.build = .ok schema) :
    ∃ declared, spec.Reads declared schema := by
  obtain ⟨declared, hdeclared, h⟩ := bind_eq_ok_iff.mp h
  obtain ⟨_, _, hschema⟩ := bind_eq_ok_iff.mp h
  exact ⟨declared, hdeclared, Except.ok.inj hschema⟩

end SchemaSection

end PropertyTree
