import PropertyTree.Config.Codec
import PropertyTree.Proofs.Except
import PropertyTree.Proofs.Toml.Exchange

/-! # Configurations there and back

Options that are absent, lists that are empty and values that are given are read back as they were
written, at every level of a configuration, also after its members have been put in key order. So a
configuration survives TOML whenever it has a TOML form and the text of its table is read back.
-/

namespace PropertyTree

/-- The entry gives the value, as its default or as an allowed one. -/
def PropertyEntry.Gives (entry : PropertyEntry) (json : Json) : Prop :=
  entry.default = some json ∨ json ∈ entry.values

/-- An entry of the configuration gives the value. -/
def Config.Gives (config : Config) (json : Json) : Prop :=
  ∃ entry ∈ config.schema.properties, entry.Gives json

/-- The text of the table reads as the table, with the members of every table in key order. Not
every table is read back: a reader need not follow arrays and tables to any depth. -/
def Toml.TextLayer.ReadsBack (toml : TextLayer) (members : List (String × Toml)) : Prop :=
  toml.parse (toml.render members) = some (Toml.table members).arranged

namespace Dialect

theorem fields_arranged (dialect : Dialect) (names : List String) (members : List (String × Json)) :
    dialect.fields names (Json.object members).arranged =
      some (names.map fun name => (Keyed.find? name members).map Json.arranged) := by
  rw [Json.arranged, fields]
  simp only [Json.find?_arrangedMembers]

/-- In TOML an option that is given is read, whatever it holds. -/
theorem toml_optional {α : Type} (read : Json → Option α) (json : Json) :
    toml.optional read (some json) = (read json).map some := by
  cases json <;> rfl

end Dialect

namespace Config

variable {α : Type} {name other : String}

theorem find?_member (write : α → Json) (option : Option α) :
    Keyed.find? name (member other write option) =
      if other = name then option.map write else none := by
  cases option with
  | none => simp [member]
  | some value => simp [member, Keyed.find?_cons]

theorem find?_listMember_of_ne (hne : other ≠ name) (items : List Json) :
    Keyed.find? name (listMember other items) = none := by
  cases items with
  | nil => rfl
  | cons item rest => exact if_neg hne

theorem mapM_arrangedItems {write : α → Json} {read : Json → Option α} {items : List α}
    (h : ∀ item ∈ items, read (write item).arranged = some item) :
    (Json.arrangedItems (items.map write)).mapM read = some items := by
  rw [Json.arrangedItems_eq, List.mapM_map, List.mapM_map]
  exact (mapM_eq_some_map h).trans (congrArg some items.map_id')

/-- A list is read as it was written; an empty one is left out. -/
theorem readList_listMember (name : String) (write : α → Json) {read : Json → Option α}
    {items : List α} (h : ∀ item ∈ items, read (write item).arranged = some item) :
    readList read ((Keyed.find? name (listMember name (items.map write))).map Json.arranged) =
      some items := by
  cases items with
  | nil => rfl
  | cons item rest =>
      simpa [listMember, Keyed.find?_cons, Json.arranged, readList] using mapM_arrangedItems h

theorem readApplier_arranged (applier : ApplierSection) :
    readApplier .toml (Json.object (applierMembers applier)).arranged = some applier := by
  rw [readApplier, Dialect.fields_arranged]
  obtain ⟨reject, validate⟩ := applier
  cases reject <;> cases validate <;> rfl

theorem readLogging_arranged (logging : LoggingSection) :
    readLogging .toml (Json.object (loggingMembers logging)).arranged = some logging := by
  rw [readLogging, Dialect.fields_arranged]
  obtain ⟨level, format⟩ := logging
  cases level <;> cases format <;> rfl

theorem fields_entryJson (dialect : Dialect) (entry : PropertyEntry) :
    dialect.fields ["path", "kind", "default", "values"] (entryJson entry).arranged =
      some [some (.string entry.path), some (.string entry.kind),
        entry.default.map Json.arranged,
        (Keyed.find? "values" (listMember "values" entry.values)).map Json.arranged] := by
  rw [entryJson, Dialect.fields_arranged]
  simp [Keyed.find?_append, Keyed.find?_cons, find?_member, find?_listMember_of_ne, Json.arranged]

/-- An entry is read as it was written, whatever JSON it gives. -/
theorem readEntry_arranged {entry : PropertyEntry}
    (hordered : ∀ json, entry.Gives json → json.Ordered) :
    readEntry .toml (entryJson entry).arranged = some entry := by
  have hdefault : Dialect.toml.optional some (entry.default.map Json.arranged) =
      some entry.default := by
    cases hgiven : entry.default with
    | none => rfl
    | some json =>
        -- The default may be a null, which TOML does not take for an absent option.
        have harranged := Json.arranged_of_ordered (hordered json (Or.inl hgiven))
        rw [Option.map_some, Dialect.toml_optional, harranged]
        rfl
  have hlisted : ∀ json ∈ entry.values, some (id json).arranged = some json := fun json hmem =>
    congrArg some (Json.arranged_of_ordered (hordered json (Or.inr hmem)))
  have hvalues := readList_listMember "values" id hlisted
  rw [List.map_id] at hvalues
  rw [readEntry, fields_entryJson]
  simp only [Option.bind_eq_bind, Option.bind_some, hdefault, hvalues]
  rfl

theorem fields_schemaMembers (dialect : Dialect) (schema : SchemaSection) :
    dialect.fields ["builtin", "properties"] (Json.object (schemaMembers schema)).arranged =
      some [schema.builtin.map .bool,
        (Keyed.find? "properties" (listMember "properties"
          (schema.properties.map entryJson))).map Json.arranged] := by
  rw [schemaMembers, Dialect.fields_arranged]
  cases schema.builtin <;>
    simp [Keyed.find?_append, find?_member, find?_listMember_of_ne, Json.arranged]

theorem readSchema_arranged {schema : SchemaSection}
    (hordered : ∀ entry ∈ schema.properties, ∀ json, entry.Gives json → json.Ordered) :
    readSchema .toml (Json.object (schemaMembers schema)).arranged = some schema := by
  have hbuiltin : Dialect.toml.optional readBool (schema.builtin.map .bool) =
      some schema.builtin := by
    cases schema.builtin <;> rfl
  have hproperties := readList_listMember "properties" entryJson fun entry hmem =>
    readEntry_arranged (hordered entry hmem)
  rw [readSchema, fields_schemaMembers]
  simp only [Option.bind_eq_bind, Option.bind_some, hbuiltin, hproperties]

/-- A configuration is read as it was written, also from members in key order. -/
theorem read_arranged {config : Config} (hordered : ∀ json, config.Gives json → json.Ordered) :
    read .toml config.toJson.arranged = some config := by
  have hschema := readSchema_arranged fun entry hmem json hgives =>
    hordered json ⟨entry, hmem, hgives⟩
  have hfields : Dialect.toml.fields ["applier", "logging", "schema"] config.toJson.arranged =
      some [some (Json.object (applierMembers config.applier)).arranged,
        some (Json.object (loggingMembers config.logging)).arranged,
        some (Json.object (schemaMembers config.schema)).arranged] := by
    rw [toJson, Dialect.fields_arranged]
    rfl
  rw [read, hfields]
  simp only [Option.bind_eq_bind, Option.bind_some, readSection, readApplier_arranged,
    readLogging_arranged, hschema]

section Gaps

theorem hasGap_append_iff {front back : List (String × Json)} :
    (Json.object (front ++ back)).HasGap ↔
      (Json.object front).HasGap ∨ (Json.object back).HasGap := by
  simp only [Json.hasGap_object_iff, List.mem_append, or_and_right, exists_or]

theorem hasGap_member_iff {write : α → Json} {option : Option α} :
    (Json.object (member name write option)).HasGap ↔
      ∃ value, option = some value ∧ (write value).HasGap := by
  rw [Json.hasGap_object_iff]
  cases option <;> simp [member]

theorem hasGap_listMember_iff {items : List Json} :
    (Json.object (listMember name items)).HasGap ↔ ∃ item ∈ items, item.HasGap := by
  rw [Json.hasGap_object_iff]
  cases items with
  | nil => simp [listMember]
  | cons item rest => simp [listMember, Json.hasGap_array_iff]

theorem not_hasGap_bool (value : Bool) : ¬ (Json.bool value).HasGap := by
  rw [Json.hasGap_iff]
  simp [Json.LacksToml, Json.children]

theorem not_hasGap_string (value : String) : ¬ (Json.string value).HasGap := by
  rw [Json.hasGap_iff]
  simp [Json.LacksToml, Json.children]

theorem hasGap_entryJson_iff (entry : PropertyEntry) :
    (entryJson entry).HasGap ↔ ∃ json, entry.Gives json ∧ json.HasGap := by
  have hnames :
      ¬ (Json.object [("path", .string entry.path), ("kind", .string entry.kind)]).HasGap := by
    simp [Json.hasGap_object_iff, not_hasGap_string]
  rw [entryJson, hasGap_append_iff, hasGap_append_iff, hasGap_member_iff, hasGap_listMember_iff]
  simp [hnames, PropertyEntry.Gives, or_and_right, exists_or]

/-- Nothing but what the entries give can lack a TOML form. -/
theorem hasGap_toJson_iff (config : Config) :
    config.toJson.HasGap ↔ ∃ json, config.Gives json ∧ json.HasGap := by
  have happlier : ¬ (Json.object (applierMembers config.applier)).HasGap := by
    rw [applierMembers, hasGap_append_iff, hasGap_member_iff, hasGap_member_iff]
    simp [not_hasGap_bool]
  have hlogging : ¬ (Json.object (loggingMembers config.logging)).HasGap := by
    rw [loggingMembers, hasGap_append_iff, hasGap_member_iff, hasGap_member_iff]
    simp [not_hasGap_string]
  have hschema : (Json.object (schemaMembers config.schema)).HasGap ↔
      ∃ entry ∈ config.schema.properties, (entryJson entry).HasGap := by
    rw [schemaMembers, hasGap_append_iff, hasGap_member_iff, hasGap_listMember_iff]
    simp [not_hasGap_bool]
  have hsections : config.toJson.HasGap ↔ (Json.object (schemaMembers config.schema)).HasGap := by
    rw [toJson, Json.hasGap_object_iff]
    simp [happlier, hlogging]
  -- What is left is to swap the entry and the value that it gives.
  rw [hsections, hschema]
  simp only [hasGap_entryJson_iff]
  constructor
  · rintro ⟨entry, hmem, json, hgives, hgap⟩
    exact ⟨json, ⟨entry, hmem, hgives⟩, hgap⟩
  · rintro ⟨json, ⟨entry, hmem, hgives⟩, hgap⟩
    exact ⟨entry, hmem, json, hgives, hgap⟩

end Gaps

theorem toToml?_eq_none_iff {config : Config} :
    config.toToml? = none ↔ ∃ json, config.Gives json ∧ json.HasGap := by
  rw [toToml?, Toml.ofJson?_eq_none_iff, hasGap_toJson_iff]

/-- The TOML form of a configuration is a table, which its text shows. -/
theorem render_of_toToml? (toml : Toml.TextLayer) {config : Config} {value : Toml}
    (h : config.toToml? = some value) :
    ∃ members, value = .table members ∧ config.render toml = .ok (toml.render members) := by
  obtain ⟨members, _, rfl⟩ := Option.map_eq_some_iff.mp h
  refine ⟨members, rfl, ?_⟩
  rw [render, h]

theorem exists_render_error_iff (toml : Toml.TextLayer) {config : Config} :
    (∃ error, config.render toml = .error error) ↔ ∃ json, config.Gives json ∧ json.HasGap := by
  rw [← toToml?_eq_none_iff]
  constructor
  · rintro ⟨error, hrender⟩
    cases htoml : config.toToml? with
    | none => rfl
    | some value =>
        obtain ⟨members, _, hok⟩ := render_of_toToml? toml htoml
        rw [hok] at hrender
        cases hrender
  · intro hnone
    rw [render, hnone]
    exact ⟨_, rfl⟩

/-- A configuration is what its TOML table describes. -/
theorem ofToml?_arranged {config : Config} (hordered : ∀ json, config.Gives json → json.Ordered)
    {value : Toml} (h : config.toToml? = some value) : ofToml? value.arranged = some config := by
  rw [ofToml?, Toml.toJson_arranged, Toml.toJson_of_ofJson? h]
  exact read_arranged hordered

/-- A configuration cannot be written as TOML just if a null or an integer that is too large occurs
in a default or an allowed value. Otherwise it is got back from the text, if the table is. -/
theorem toml_roundTrip (toml : Toml.TextLayer) {config : Config}
    (hordered : ∀ json, config.Gives json → json.Ordered)
    (htext : ∀ members, config.toToml? = some (.table members) → toml.ReadsBack members)
    (source : String) :
    ((∃ error, config.render toml = .error error) ↔ ∃ json, config.Gives json ∧ json.HasGap) ∧
    ((∀ json, config.Gives json → ¬ json.HasGap) →
      ∃ text, config.render toml = .ok text ∧ parse toml source text = .ok config) := by
  refine ⟨exists_render_error_iff toml, fun hnone => ?_⟩
  cases htoml : config.toToml? with
  | none =>
      obtain ⟨json, hgives, hgap⟩ := toToml?_eq_none_iff.mp htoml
      exact absurd hgap (hnone json hgives)
  | some value =>
      obtain ⟨members, rfl, hrender⟩ := render_of_toToml? toml htoml
      refine ⟨toml.render members, hrender, ?_⟩
      rw [parse, htext members htoml, Option.bind_some, ofToml?_arranged hordered htoml]

/-- A configuration with nested JSON, where a section and some options are left out. -/
def shaded : Config :=
  ⟨⟨some true, none⟩, ⟨none, none⟩,
    ⟨none, [⟨"shade", "one_of", some (.object [("at", .array [.bool false, .object []])]),
      [.number (.float (.zero false))]⟩]⟩⟩

theorem ordered_of_gives_shaded {json : Json} (h : shaded.Gives json) : json.Ordered := by
  obtain ⟨entry, hmem, hgives⟩ := h
  obtain rfl := List.mem_singleton.mp hmem
  rcases hgives with hdefault | hvalue
  · cases hdefault
    simp [Json.Ordered, Json.OrderedMembers, Json.OrderedItems, Keyed.Ordered]
  · obtain rfl := List.mem_singleton.mp hvalue
    trivial

theorem readsBack_shaded {members : List (String × Toml)}
    (h : shaded.toToml? = some (.table members)) : Toml.builtinLayer.ReadsBack members := by
  cases h
  rw [Toml.TextLayer.ReadsBack]
  decide +kernel

theorem toml_roundTrip_shaded :
    (∀ json, shaded.Gives json → json.Ordered) ∧
      (∀ members, shaded.toToml? = some (.table members) →
        Toml.builtinLayer.ReadsBack members) ∧
      ∃ text, shaded.render Toml.builtinLayer = .ok text ∧
        parse Toml.builtinLayer "<string>" text = .ok shaded := by
  have hordered : ∀ json, shaded.Gives json → json.Ordered := fun _ => ordered_of_gives_shaded
  have htext : ∀ members, shaded.toToml? = some (.table members) →
      Toml.builtinLayer.ReadsBack members := fun _ => readsBack_shaded
  refine ⟨hordered, htext, (toml_roundTrip _ hordered htext "<string>").2 ?_⟩
  intro json hgives hgap
  cases toToml?_eq_none_iff.mpr ⟨json, hgives, hgap⟩

end Config

end PropertyTree
