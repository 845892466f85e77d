import Mathlib.Data.List.Nodup
import Mathlib.Data.List.Perm.Basic
import PropertyTree.Config.Codec
import PropertyTree.Proofs.Path.Dotted
import PropertyTree.Proofs.Schema.Building
import PropertyTree.Proofs.Schema.Entry

/-! # Printed schemas as configurations

The object that a schema is printed as has one member for each property, from the dotted path to the
kind, the listed values and the default. Each member reads as an entry of a section that starts from
nothing, and the section of these entries, in whatever order they are listed, builds the schema that
was printed.
-/

namespace PropertyTree

/-- The values that the kind lists. -/
def Kind.values : Kind → List Value
  | .oneOf values => values
  | _ => []

/-- A configuration can declare the descriptor: a kind that lists values lists some, and the default
fits. -/
structure Descriptor.IsDeclarable (d : Descriptor) : Prop where
  kind_ne : d.kind ≠ .oneOf []
  defaultFits : d.DefaultFits

namespace Descriptor

theorem member?_kind (d : Descriptor) : d.toJson.member? "kind" = some (.string d.kind.name) := rfl

theorem member?_default (d : Descriptor) :
    d.toJson.member? "default" = d.default.map Value.toJson := by
  obtain ⟨kind, default⟩ := d
  cases kind <;> cases default <;> rfl

/-- A kind that lists no values is printed without a list, which reads as the empty one. -/
theorem readList_member?_values (d : Descriptor) :
    Config.readList some (d.toJson.member? "values") = some (d.kind.values.map Value.toJson) := by
  obtain ⟨kind, default⟩ := d
  cases kind with
  | bool | string | number | integer => cases default <;> rfl
  | oneOf values =>
      have hread := List.mapM_pure (m := Option) (l := values.map Value.toJson) (f := id)
      rw [List.map_id] at hread
      exact hread

end Descriptor

namespace PropertyEntry

/-- The entry that a member of a printed schema stands for. -/
def ofMember? (key : String) (descriptor : Json) : Option PropertyEntry := do
  let kind ← (descriptor.member? "kind").bind Config.readText
  let values ← Config.readList some (descriptor.member? "values")
  some ⟨key, kind, descriptor.member? "default", values⟩

/-- The entry that declares a property. -/
def declaring (path : Path) (d : Descriptor) : PropertyEntry :=
  ⟨path.dotted, d.kind.name, d.default.map Value.toJson, d.kind.values.map Value.toJson⟩

theorem ofMember?_toJson (path : Path) (d : Descriptor) :
    ofMember? path.dotted d.toJson = some (declaring path d) := by
  rw [ofMember?, d.member?_kind, d.member?_default, d.readList_member?_values]
  rfl

theorem declares_declaring {d : Descriptor} (h : d.IsDeclarable) (path : Path) :
    (declaring path d).Declares path d where
  parse_eq := path.parse_dotted
  kind_eq := rfl
  kind_ne := h.kind_ne
  values_eq := by
    intro values hkind
    rw [declaring, hkind, Kind.values, List.map_map, List.map_congr_left]
    exact fun value _ => value.ofJson?_toJson
  default_eq := by
    rw [declaring, Option.map_map]
    exact Option.map_congr fun value _ => value.ofJson?_toJson
  defaultFits := h.defaultFits

theorem Declares.isDeclarable {entry : PropertyEntry} {path : Path} {d : Descriptor}
    (h : entry.Declares path d) : d.IsDeclarable := ⟨h.kind_ne, h.defaultFits⟩

end PropertyEntry

namespace Schema

/-- A configuration can declare every descriptor of the schema. -/
def IsDeclarable (schema : Schema) : Prop :=
  ∀ path d, schema.get? path = some d → d.IsDeclarable

theorem IsDeclarable.declare {schema : Schema} (h : schema.IsDeclarable) (path : Path)
    {d : Descriptor} (hd : d.IsDeclarable) : (schema.declare path d).IsDeclarable := by
  intro other found hget
  rw [get?_declare] at hget
  split at hget
  next =>
    cases hget
    exact hd
  next => exact h other found hget

theorem isDeclarable_empty : IsDeclarable .empty := by
  intro path d hget
  cases hget

theorem builtin_isDeclarable : builtin.IsDeclarable := by
  have hkinds : ∀ property ∈ builtinProperties, property.2.kind ≠ .oneOf [] := by decide
  refine List.foldlRecOn builtinProperties _ isDeclarable_empty ?_
  rintro schema h ⟨key, descriptor⟩ hmem
  cases hparse : Path.parse key with
  | error error => simpa only [hparse] using h
  | ok path =>
      have hd := Descriptor.IsDeclarable.mk (hkinds _ hmem)
        (defaultFits_of_mem_builtinProperties _ hmem)
      simpa only [hparse] using h.declare path hd

/-- Declaring the entries of a schema one by one, in any order, makes the schema. -/
theorem foldl_declare_eq {schema : Schema} {pairs : List (Path × Descriptor)}
    (hpairs : pairs.Perm schema.entries) :
    pairs.foldl (fun schema (path, descriptor) => schema.declare path descriptor) .empty =
      schema := by
  have hnodup : (pairs.map (·.1)).Nodup := by
    refine (hpairs.map _).nodup_iff.mpr ?_
    exact schema.pairwise_keys.imp KeyOrder.ne_of_lt
  apply Dictionary.ext
  intro path
  by_cases hmem : path ∈ pairs.map (·.1)
  · obtain ⟨d, hd⟩ : ∃ d, (path, d) ∈ pairs := by simpa using hmem
    obtain ⟨before, after, rfl⟩ := List.append_of_mem hd
    have hlast : path ∉ after.map (·.1) := by
      rw [List.map_append, List.map_cons] at hnodup
      exact (List.nodup_cons.mp (List.nodup_append.mp hnodup).2.1).1
    rw [get?_foldl_declare_of_last hlast, schema.get?_eq_some_iff.mpr (hpairs.mem_iff.mp hd)]
  · have hnone : schema.get? path = none := by
      rw [Option.eq_none_iff_forall_ne_some]
      intro d hget
      have hd := hpairs.mem_iff.mpr (schema.get?_eq_some_iff.mp hget)
      exact hmem (List.mem_map_of_mem hd)
    rw [get?_foldl_declare_of_not_mem hmem, hnone, Dictionary.get?_empty]

end Schema

namespace SchemaSection

theorem isDeclarable_of_build {spec : SchemaSection} {schema : Schema}
    (hbuild : spec.build = .ok schema) : schema.IsDeclarable := by
  obtain ⟨declared, hreads⟩ := reads_of_build hbuild
  have hbase : spec.base.IsDeclarable := by
    rw [base]
    split
    next => exact Schema.builtin_isDeclarable
    next => exact Schema.isDeclarable_empty
  rw [← hreads.schema_eq]
  refine List.foldlRecOn declared _ hbase ?_
  rintro schema h ⟨path, d⟩ hmem
  obtain ⟨index, hindex⟩ := List.mem_iff_getElem?.mp hmem
  obtain ⟨entry, _, hdeclaration⟩ := hreads.getElem?_eq_some_iff.mp hindex
  exact h.declare path (PropertyEntry.declaration_eq_ok_iff.mp hdeclaration).isDeclarable

theorem declarations_map_declaring {pairs : List (Path × Descriptor)}
    (h : ∀ pair ∈ pairs, pair.2.IsDeclarable) (index : Nat) :
    declarations index (pairs.map fun (path, d) => PropertyEntry.declaring path d) = .ok pairs := by
  induction pairs generalizing index with
  | nil => rfl
  | cons pair rest ih =>
      obtain ⟨hpair, hrest⟩ := List.forall_mem_cons.mp h
      have hfirst : (PropertyEntry.declaring pair.1 pair.2).declaration index = .ok pair :=
        PropertyEntry.declaration_eq_ok_iff.mpr (PropertyEntry.declares_declaring hpair pair.1)
      rw [List.map_cons, declarations, hfirst, ih hrest]
      rfl

theorem checkOverlaps_of_prefixFree {schema : Schema} (hfree : schema.PrefixFree)
    {paths : List Path} (hpaths : ∀ path ∈ paths, path ∈ schema.keys) (index : Nat) :
    checkOverlaps schema index paths = .ok () := by
  induction paths generalizing index with
  | nil => rfl
  | cons path rest ih =>
      obtain ⟨hpath, hrest⟩ := List.forall_mem_cons.mp hpaths
      have hnone : overlap? schema path = none := by
        rw [overlap?_eq_none_iff]
        intro other hother
        rw [Schema.declares_iff_mem_keys] at hother
        rintro (habove | habove)
        · simp [hfree path hpath other hother] at habove
        · simp [hfree other hother path hpath] at habove
      rw [checkOverlaps, hnone]
      exact ih hrest (index + 1)

/-- The section that starts from nothing and has the entries that the members of a printed schema
stand for. -/
def ofMembers? (members : List (String × Json)) : Option SchemaSection := do
  let entries ← members.mapM fun (key, descriptor) => PropertyEntry.ofMember? key descriptor
  some ⟨some false, entries⟩

theorem ofMembers?_map (pairs : List (Path × Descriptor)) :
    ofMembers? (pairs.map fun (path, d) => (path.dotted, d.toJson)) =
      some ⟨some false, pairs.map fun (path, d) => PropertyEntry.declaring path d⟩ := by
  rw [ofMembers?, List.mapM_map,
    mapM_eq_some_map fun pair _ => PropertyEntry.ofMember?_toJson pair.1 pair.2]
  rfl

/-- A section whose entries declare the properties of a schema that was built builds the schema. -/
theorem build_declaring {spec : SchemaSection} {schema : Schema} (hbuild : spec.build = .ok schema)
    {pairs : List (Path × Descriptor)} (hpairs : pairs.Perm schema.entries) :
    build ⟨some false, pairs.map fun (path, d) => PropertyEntry.declaring path d⟩ = .ok schema := by
  have hdeclarable : ∀ pair ∈ pairs, pair.2.IsDeclarable := by
    rintro ⟨path, d⟩ hmem
    exact isDeclarable_of_build hbuild path d (schema.get?_eq_some_iff.mpr (hpairs.mem_iff.mp hmem))
  have hpaths : ∀ path ∈ pairs.map (·.1), path ∈ schema.keys := by
    intro path hpath
    exact (hpairs.map _).mem_iff.mp hpath
  have hcheck := checkOverlaps_of_prefixFree (prefixFree_of_build hbuild) hpaths 0
  refine bind_eq_ok_iff.mpr ⟨pairs, declarations_map_declaring hdeclarable 0, ?_⟩
  have hfold := Schema.foldl_declare_eq hpairs
  refine bind_eq_ok_iff.mpr ⟨(), ?_, congrArg Except.ok hfold⟩
  exact (congrArg (checkOverlaps · 0 (pairs.map (·.1))) hfold).trans hcheck

/-- A schema that was built is printed as an object whose keys are distinct. Its members, in
whatever order they are listed, stand for a section that starts from nothing and builds the schema
again. -/
theorem printing_is_faithful {spec : SchemaSection} {schema : Schema}
    (hbuild : spec.build = .ok schema) :
    ∃ members, schema.toJson = .object members ∧ (members.map (·.1)).Nodup ∧
      ∀ listed : List (String × Json), listed.Perm members →
        ∃ printed, ofMembers? listed = some printed ∧ printed.build = .ok schema := by
  refine ⟨_, rfl, ?_, ?_⟩
  · have hkeys : schema.keys.Nodup := schema.pairwise_keys.imp KeyOrder.ne_of_lt
    have hdotted : (schema.keys.map Path.dotted).Nodup := hkeys.map Path.dotted_injective
    rw [Dictionary.keys, List.map_map] at hdotted
    rw [List.map_map]
    exact hdotted
  · intro listed hlisted
    have hmembers := congrFun₂ (List.eq_map_comp_perm fun (path, d) =>
      (Path.dotted path, Descriptor.toJson d)) listed schema.entries
    obtain ⟨pairs, rfl, hpairs⟩ := hmembers.mpr hlisted
    exact ⟨_, ofMembers?_map pairs, build_declaring hbuild hpairs⟩

/-- A choice that lists a number and a text, with a default that is written as a float, beside a
switch. -/
def shade : SchemaSection :=
  ⟨some false,
    [⟨"shade.level", "one_of", some (.number (.float (.zero false))),
        [.number (.ofUInt64 0), .string "closed"]⟩,
      ⟨"shade.auto", "bool", none, []⟩]⟩

/-- The schema that `shade` builds. Its default is kept as an integer. -/
def shadeSchema : Schema :=
  let level : Path :=
    ⟨[⟨"shade", by decide, by decide⟩, ⟨"level", by decide, by decide⟩], by decide⟩
  let auto : Path :=
    ⟨[⟨"shade", by decide, by decide⟩, ⟨"auto", by decide, by decide⟩], by decide⟩
  let zero : Value := .ofUInt64 0
  (Schema.declare .empty level ⟨.oneOf [zero, .text "closed"], some zero⟩).declare auto
    ⟨.bool, none⟩

/-- The members that the schema of `shade` is printed with. -/
def shadeMembers : List (String × Json) :=
  let zero := Json.number (.ofUInt64 0)
  [("shade.auto", .object [("kind", .string "bool")]),
    ("shade.level", .object [("kind", .string "one_of"),
      ("values", .array [zero, .string "closed"]), ("default", zero)])]

theorem printing_is_faithful_shade :
    shade.build = .ok shadeSchema ∧ shadeSchema.toJson = .object shadeMembers ∧
      (shadeMembers.map (·.1)).Nodup ∧
      ∃ printed, ofMembers? shadeMembers.reverse = some printed ∧
        printed.properties.map (·.path) = shade.properties.map (·.path) ∧
        printed.build = .ok shadeSchema := by
  have hbuild : shade.build = .ok shadeSchema := rfl
  obtain ⟨members, hprinted, hnodup, hfaithful⟩ := printing_is_faithful hbuild
  cases hprinted
  obtain ⟨printed, hread, hagain⟩ := hfaithful shadeMembers.reverse (List.reverse_perm _)
  refine ⟨hbuild, rfl, hnodup, printed, hread, ?_, hagain⟩
  cases hread
  rfl

end SchemaSection

end PropertyTree
