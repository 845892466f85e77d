import PropertyTree.Config.Schema
import PropertyTree.Proofs.Except

/-! # What an entry declares

An entry of a configuration declares a property when its path parses, its kind is one of the known
names with the values that it lists, and its default is a scalar that the kind accepts. The position
of the entry counts for the wording of errors only.
-/

namespace PropertyTree

namespace PropertyEntry

/-- The entry declares the descriptor at the path. -/
structure Declares (entry : PropertyEntry) (path : Path) (d : Descriptor) : Prop where
  parse_eq : Path.parse entry.path = .ok path
  kind_eq : entry.kind = d.kind.name
  kind_ne : d.kind ≠ .oneOf []
  values_eq : ∀ values, d.kind = .oneOf values →
    entry.values.map Value.ofJson? = values.map some
  default_eq : entry.default.map Value.ofJson? = d.default.map some
  defaultFits : d.DefaultFits

theorem scalar_eq_ok_iff {index : Nat} {field : String} {json : Json} {value : Value} :
    scalar index field json = .ok value ↔ Value.ofJson? json = some value := by
  rw [scalar]
  cases Value.ofJson? json <;> simp

theorem scalars_eq_ok_iff {index : Nat} {items : List Json} {values : List Value} :
    scalars index items = .ok values ↔ items.map Value.ofJson? = values.map some := by
  induction items generalizing values with
  | nil =>
      cases values with
      | nil => exact iff_of_true rfl rfl
      | cons value rest => exact iff_of_false nofun nofun
  | cons item items ih =>
      rw [scalars]
      simp only [bind_eq_ok_iff, scalar_eq_ok_iff, ih, List.map_cons]
      constructor
      · rintro ⟨value, hvalue, rest, hrest, heq⟩
        cases heq
        rw [hvalue, hrest, List.map_cons]
      · intro h
        cases values with
        | nil => cases h
        | cons value rest =>
            obtain ⟨hvalue, hrest⟩ := List.cons_eq_cons.mp h
            exact ⟨value, hvalue, rest, hrest, rfl⟩

theorem kind?_eq_ok_iff {entry : PropertyEntry} {index : Nat} {kind : Kind} :
    entry.kind? index = .ok kind ↔
      entry.kind = kind.name ∧ kind ≠ .oneOf [] ∧
        ∀ values, kind = .oneOf values → entry.values.map Value.ofJson? = values.map some := by
  obtain ⟨path, name, default, items⟩ := entry
  constructor
  · intro h
    unfold kind? at h
    split at h
    next hname =>
      cases h
      exact ⟨hname, nofun, nofun⟩
    next hname =>
      cases h
      exact ⟨hname, nofun, nofun⟩
    next hname =>
      cases h
      exact ⟨hname, nofun, nofun⟩
    next hname =>
      cases h
      exact ⟨hname, nofun, nofun⟩
    next hname =>
      split at h
      next => cases h
      next hitems =>
        obtain ⟨values, hscalars, rfl⟩ := map_eq_ok_iff.mp h
        have hvalues := scalars_eq_ok_iff.mp hscalars
        refine ⟨hname, ?_, ?_⟩
        · intro hempty
          cases hempty
          exact hitems (List.isEmpty_iff.mpr (List.map_eq_nil_iff.mp hvalues))
        · intro _ heq
          cases heq
          exact hvalues
    next => cases h
  · rintro ⟨hname, hne, hvalues⟩
    cases hname
    cases kind with
    | bool | string | number | integer => rfl
    | oneOf values =>
        have hscalars : scalars index items = .ok values :=
          scalars_eq_ok_iff.mpr (hvalues values rfl)
        have hitems : items.isEmpty = false := by
          rw [List.isEmpty_eq_false_iff]
          rintro rfl
          exact hne (congrArg Kind.oneOf (List.map_eq_nil_iff.mp (hvalues values rfl).symm))
        simp only [kind?, hitems]
        exact map_eq_ok_iff.mpr ⟨values, hscalars, rfl⟩

theorem default?_eq_ok_iff {entry : PropertyEntry} {index : Nat} {d : Descriptor} :
    entry.default? index d.kind = .ok d.default ↔
      entry.default.map Value.ofJson? = d.default.map some ∧ d.DefaultFits := by
  obtain ⟨kind, default⟩ := d
  rw [default?]
  cases entry.default with
  | none =>
      cases default with
      | none =>
          refine iff_of_true rfl ⟨rfl, ?_⟩
          intro _ hvalue
          cases hvalue
      | some value =>
          refine iff_of_false nofun ?_
          rintro ⟨hvalue, _⟩
          cases hvalue
  | some json =>
      simp only [bind_eq_ok_iff, scalar_eq_ok_iff, Option.map_some]
      constructor
      · rintro ⟨value, hvalue, h⟩
        split at h
        next haccepts =>
          cases h
          refine ⟨congrArg some hvalue, ?_⟩
          intro _ heq
          cases heq
          exact haccepts
        next => cases h
      · rintro ⟨hvalue, hfits⟩
        cases default with
        | none => cases hvalue
        | some value => exact ⟨value, Option.some.inj hvalue, if_pos (hfits value rfl)⟩

/-- What an entry declares does not depend on its position. -/
theorem declaration_eq_ok_iff {entry : PropertyEntry} {index : Nat} {path : Path} {d : Descriptor} :
    entry.declaration index = .ok (path, d) ↔ entry.Declares path d := by
  obtain ⟨kind, default⟩ := d
  simp only [declaration, bind_eq_ok_iff, mapError_eq_ok_iff, kind?_eq_ok_iff]
  constructor
  · rintro ⟨_, hpath, _, ⟨hname, hne, hvalues⟩, _, hdefault, heq⟩
    cases heq
    obtain ⟨hdefault, hfits⟩ := default?_eq_ok_iff (d := ⟨kind, default⟩).mp hdefault
    exact ⟨hpath, hname, hne, hvalues, hdefault, hfits⟩
  · rintro ⟨hpath, hname, hne, hvalues, hdefault, hfits⟩
    exact ⟨path, hpath, kind, ⟨hname, hne, hvalues⟩, default,
      default?_eq_ok_iff (d := ⟨kind, default⟩).mpr ⟨hdefault, hfits⟩, rfl⟩

end PropertyEntry

end PropertyTree
