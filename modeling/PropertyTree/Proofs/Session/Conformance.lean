import PropertyTree.Proofs.Schema.Defaults
import PropertyTree.Proofs.Session.Run
import PropertyTree.Proofs.Store.Independence
import PropertyTree.Proofs.Store.LeafMap

/-! # Conformance of a session that checks its snapshots

Values enter a store by a snapshot, whose leaves are checked one by one before it replaces the old
contents, and by a set, which is checked before it is looked at any further. Nothing else changes a
value, so in such a session every leaf fits the schema at all times, and so does every default.
-/

namespace PropertyTree

/-- The leaf that an event leaves behind fits, if the one before it did. -/
theorem Event.fits_of_advance {options : Options} {schema : Schema} {event : Event}
    {held : Option Leaf} {leaf : Leaf}
    (hheld : ∀ leaf, held = some leaf → schema.Fits event.path leaf.value)
    (hleaf : event.advance options schema held = some leaf) :
    schema.Fits event.path leaf.value := by
  rw [advance, isAdmitted] at hleaf
  cases hcheck : event.check options schema with
  | error failure => exact hheld leaf (by simpa [hcheck] using hleaf)
  | ok _ =>
      simp only [hcheck, if_true] at hleaf
      cases event with
      | set path value version =>
          obtain ⟨_, hschema, _⟩ := bind_eq_ok_iff.mp hcheck
          have hfits : schema.Fits path value := by
            rw [← Schema.check_eq_ok_iff]
            cases hresult : schema.check path value with
            | ok _ => rfl
            | error error =>
                rw [hresult] at hschema
                cases hschema
          cases held with
          | none =>
              cases hleaf
              exact hfits
          | some held =>
              cases hrefusal : held.refusal? version with
              | some reason =>
                  rw [revise_of_refusal hrefusal] at hleaf
                  exact hheld leaf hleaf
              | none =>
                  rw [revise_of_accepted hrefusal] at hleaf
                  cases hleaf
                  exact hfits
      | delete path => cases held <;> cases hleaf

namespace Store

/-- Every leaf fits the schema. -/
def Conforms (schema : Schema) (store : Store) : Prop :=
  ∀ path held, store.layout path = .leaf held → schema.Fits path held.value

theorem conforms_empty (schema : Schema) : Store.empty.Conforms schema := by
  intro path held hleaf
  exact absurd hleaf (layout_empty_ne_leaf path held)

variable {schema : Schema} {store : Store}

theorem Conforms.next {options : Options} (h : store.Conforms schema) (event : Event) :
    (store.next options schema event).Conforms schema := by
  rcases store.next_cases options schema event with hsame | ⟨held, hslot, hlayout⟩
  · rwa [hsame]
  · intro path leaf hleaf
    rw [hlayout] at hleaf
    by_cases hself : path = event.path
    · subst hself
      rw [Layout.assign_self] at hleaf
      cases hadvance : event.advance options schema held with
      | none =>
          rw [hadvance] at hleaf
          cases hleaf
      | some after =>
          rw [hadvance] at hleaf
          cases hleaf
          refine Event.fits_of_advance ?_ hadvance
          rintro before rfl
          exact h event.path before (slot_eq_free_some_iff.mp hslot)
    · exact h path leaf ((Layout.assign_eq_leaf_iff hself).mp hleaf).2

theorem conforms_law (options : Options) (schema : Schema) :
    EventLaw options schema (Conforms schema) fun _ => True where
  next _ event h := h.next event
  answer _ _ _ := trivial
  misreading _ _ := trivial

end Store

namespace Session

/-- What a checking session loads conforms to its schema. -/
theorem conforms_of_loaded? {session : Session} (hvalidate : session.validateSnapshot = true)
    {operation : Operation} {contents : Store}
    (hloaded : session.loaded? operation = some contents) :
    contents.Conforms session.schema := by
  cases operation with
  | load members =>
      obtain ⟨_, hcheck⟩ := ofSnapshot_of_loaded? hloaded
      intro path held hleaf
      exact checkLeaves_eq_ok_iff.mp (hcheck hvalidate) (path, held)
        (Store.mem_leaves_iff.mpr hleaf)
  | apply _ | applyWire _ | applyBatch _ | applyDocument _ => cases hloaded

/-- A value that is read, be it a stored one or a default, fits. -/
theorem fits_of_getOrDefault? {session : Session} (hdefaults : session.schema.DefaultsFit)
    (hstore : session.store.Conforms session.schema) {path : Path} {value : Value}
    (hread : session.getOrDefault? path = some value) : session.schema.Fits path value := by
  rw [getOrDefault?, Schema.valueOrDefault?, Store.get?] at hread
  cases hleaf : session.store.leaf? path with
  | none =>
      rw [hleaf] at hread
      exact hdefaults.fits_of_defaultFor? hread
  | some held =>
      rw [hleaf] at hread
      cases hread
      rw [← Store.get?_flat] at hleaf
      exact hstore path held (Store.get?_flat_eq_some_iff.mp hleaf)

/-- On the way from a checking session that conforms, every store conforms. -/
theorem conforms_after {origin : Session} (hvalidate : origin.validateSnapshot = true)
    (h : origin.store.Conforms origin.schema) (depth : Nat) (operations : List Operation) :
    Alike (origin.start.after depth operations).session origin ∧
      (origin.start.after depth operations).session.store.Conforms origin.schema := by
  have hload : ∀ session operation contents, Alike session origin →
      session.loaded? operation = some contents → contents.Conforms origin.schema := by
    intro session operation contents halike hloaded
    have hconforms := conforms_of_loaded? (halike.validateSnapshot.trans hvalidate) hloaded
    rwa [halike.schema] at hconforms
  have hlaw := Store.conforms_law origin.options origin.schema
  exact Progress.store_after_of_law depth hlaw hload (Alike.refl origin) h operations

/-- A session that checks its snapshots only ever holds values that its schema accepts at their
paths, and only such values are read from it, defaults included. -/
theorem conformance_of_checked_session {config : Config} {schema : Schema}
    (hbuild : config.buildSchema = .ok schema) (hvalidate : config.validateSnapshot = true) :
    ∃ session, ofConfig config = .ok session ∧ ∀ depth operations,
      (∀ entry ∈ (session.start.after depth operations).session.store.leaves,
        schema.Fits entry.1 entry.2.value) ∧
      ∀ path value, (session.start.after depth operations).session.getOrDefault? path = some value →
        schema.Fits path value := by
  have hsession : ofConfig config = .ok (new schema ⟨config.rejectUnversioned⟩ true) := by
    rw [ofConfig, hbuild, hvalidate]
    rfl
  refine ⟨_, hsession, fun depth operations => ?_⟩
  have hstart : (new schema ⟨config.rejectUnversioned⟩ true).store.Conforms schema :=
    Store.conforms_empty schema
  obtain ⟨halike, hconforms⟩ := conforms_after rfl hstart depth operations
  constructor
  · rintro ⟨path, held⟩ hmem
    exact hconforms path held (Store.mem_leaves_iff.mp hmem)
  · intro path value hread
    have hdefaults := SchemaSection.defaultsFit_of_build hbuild
    have hschema : ((new schema ⟨config.rejectUnversioned⟩ true).start.after
        depth operations).session.schema = schema := halike.schema
    have hfits := fits_of_getOrDefault? (hschema.symm ▸ hdefaults) (hschema.symm ▸ hconforms) hread
    rwa [hschema] at hfits

end Session

/-- A configuration that checks snapshots and declares a level with a default. -/
def Config.dimmer : Config :=
  ⟨⟨none, some true⟩, ⟨none, none⟩,
    ⟨some false, [⟨"lamp.dim", "integer", some (.number (.ofUInt64 3)), []⟩]⟩⟩

def Schema.dimmer : Schema := .declare .empty .lampDim ⟨.integer, some (.ofUInt64 3)⟩

theorem Config.buildSchema_dimmer : Config.dimmer.buildSchema = .ok .dimmer := rfl

theorem Session.conformance_of_checked_session_dimmer :
    Config.dimmer.buildSchema = .ok .dimmer ∧ Config.dimmer.validateSnapshot = true ∧
      ∃ session, ofConfig .dimmer = .ok session ∧ ∀ depth operations,
        let reached := (session.start.after depth operations).session
        (∀ entry ∈ reached.store.leaves, Schema.dimmer.Fits entry.1 entry.2.value) ∧
        ∀ path value, reached.getOrDefault? path = some value → Schema.dimmer.Fits path value :=
  ⟨Config.buildSchema_dimmer, rfl, conformance_of_checked_session Config.buildSchema_dimmer rfl⟩

end PropertyTree
