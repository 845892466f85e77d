import PropertyTree.Event.Document
import PropertyTree.Proofs.Except

/-! # The normal form of a wire event

A wire event may be spelled in several ways: as an object or as an array, under a short or a long
type name, with a null for what is absent, with members that do not count. All that is kept of it is
its kind, its key and, for a set, the value and the version that are there. Its normal form has just
these members, is read as the same event, and so stands for whatever the event was read from.
-/

namespace PropertyTree

namespace WireEvent

/-- The value that the event brings, as it was sent. -/
def value? : WireEvent → Option Json
  | .set _ value _ => value
  | .delete _ => none

/-- The member of this name in the normal form of the event. -/
def member? : WireEvent → String → Option Json
  | .set key value version, name =>
    if name = "type" then some (.string "set")
    else if name = "key" then some (.string key)
    else if name = "value" then value
    else if name = "version" then version.map fun v => .number (.ofUInt64 v.number)
    else none
  | .delete key, name =>
    if name = "type" then some (.string "delete")
    else if name = "key" then some (.string key)
    else none

section Reading

variable {kind : EventKind} {event : WireEvent}

theorem readValue_ne_null (json : Json) : readValue json ≠ some .null := by
  cases json <;> simp [readValue]

theorem readValue_of_ne_null {json : Json} (h : json ≠ .null) : readValue json = some json := by
  cases json with
  | null => exact absurd rfl h
  | bool _ | number _ | string _ | array _ | object _ => rfl

theorem value?_of_ofMembers? {members : List (String × Json)}
    (h : ofMembers? kind members = some event) : event.value? ≠ some .null := by
  cases kind with
  | delete =>
      simp only [ofMembers?] at h
      split at h
      next =>
        obtain ⟨key, _, h⟩ := Option.bind_eq_some_iff.mp h
        cases h
        nofun
      next => cases h
  | set =>
      simp only [ofMembers?] at h
      split at h
      next =>
        obtain ⟨key, _, h⟩ := Option.bind_eq_some_iff.mp h
        -- Whatever the version is read from, the value is that of the first of these matches.
        have hvalue : event.value? = none ∨ ∃ json, event.value? = readValue json := by
          split at h
          next =>
            obtain ⟨value, hvalue, h⟩ := Option.bind_eq_some_iff.mp h
            cases hvalue
            split at h
            all_goals
              obtain ⟨version, _, h⟩ := Option.bind_eq_some_iff.mp h
              cases h
              exact Or.inl rfl
          next json _ =>
            obtain ⟨value, hvalue, h⟩ := Option.bind_eq_some_iff.mp h
            cases hvalue
            split at h
            all_goals
              obtain ⟨version, _, h⟩ := Option.bind_eq_some_iff.mp h
              cases h
              exact Or.inr ⟨json, rfl⟩
          next => cases h
        rcases hvalue with hvalue | ⟨json, hvalue⟩
        · rw [hvalue]
          nofun
        · rw [hvalue]
          exact readValue_ne_null json
      next => cases h

theorem value?_of_ofItems? {items : List Json} (h : ofItems? kind items = some event) :
    event.value? ≠ some .null := by
  unfold ofItems? at h
  split at h
  next =>
    obtain ⟨key, _, rfl⟩ := Option.map_eq_some_iff.mp h
    nofun
  next =>
    obtain ⟨key, _, rfl⟩ := Option.map_eq_some_iff.mp h
    nofun
  next =>
    obtain ⟨key, _, rfl⟩ := Option.map_eq_some_iff.mp h
    exact readValue_ne_null _
  next =>
    obtain ⟨key, _, h⟩ := Option.bind_eq_some_iff.mp h
    obtain ⟨version, _, h⟩ := Option.bind_eq_some_iff.mp h
    cases h
    exact readValue_ne_null _
  next => cases h

theorem value?_of_ofJson? {json : Json} (h : ofJson? json = some event) :
    event.value? ≠ some .null := by
  unfold ofJson? at h
  split at h
  next =>
    obtain ⟨kind, _, h⟩ := Option.bind_eq_some_iff.mp h
    exact value?_of_ofMembers? h
  next =>
    obtain ⟨kind, _, h⟩ := Option.bind_eq_some_iff.mp h
    exact value?_of_ofItems? h
  next => cases h

end Reading

theorem find?_toJson (event : WireEvent) : ∃ members, event.toJson = .object members ∧
    Keyed.Ordered members ∧ ∀ name, Keyed.find? name members = event.member? name := by
  cases event with
  | delete key =>
      refine ⟨_, rfl, ?_, fun name => ?_⟩
      · exact List.pairwise_pair.mpr (by decide : "key" < "type")
      · grind [Keyed.find?, member?, EventKind.name]
  | set key value version =>
      refine ⟨_, rfl, ?_, fun name => ?_⟩
      · rw [Keyed.Ordered]
        cases value <;> cases version <;>
          simp only [Option.map_none, Option.map_some, Option.toList_none, Option.toList_some,
            List.cons_append, List.nil_append, List.append_nil, List.pairwise_cons,
            List.mem_cons, forall_eq_or_imp, List.not_mem_nil, false_imp_iff, forall_const,
            List.Pairwise.nil, and_true] <;>
          decide
      · cases value <;> cases version <;> grind [Keyed.find?, member?, EventKind.name]

theorem readVersion?_ofUInt64 (n : UInt64) :
    readVersion? (.number (.ofUInt64 n)) = some (some ⟨n⟩) := by
  rw [readVersion?, Number.toUInt64?_ofUInt64]
  rfl

/-- An event whose value is no null is read back from its normal form. -/
theorem ofJson?_toJson {event : WireEvent} (h : event.value? ≠ some .null) :
    ofJson? event.toJson = some event := by
  cases event with
  | delete key => rfl
  | set key value version =>
      have hvalue : ∀ json, value = some json → readValue json = some json := by
        rintro json rfl
        exact readValue_of_ne_null fun hnull => h (congrArg some hnull)
      have htype : ofJson? (toJson (.set key value version)) =
          ofMembers? .set (("key", .string key) :: ((value.map fun v => ("value", v)).toList ++
            (version.map fun v => ("version", .number (.ofUInt64 v.number))).toList)) := rfl
      rw [htype]
      cases value with
      | none =>
          cases version with
          | none => rfl
          | some version => simp [ofMembers?, fields, readKey?, readVersion?_ofUInt64]
      | some json =>
          cases version with
          | none => simp [ofMembers?, fields, readKey?, hvalue]
          | some version => simp [ofMembers?, fields, readKey?, readVersion?_ofUInt64, hvalue]

/-- The JSON value is the normal form of the event. -/
structure IsNormalForm (event : WireEvent) (json : Json) : Prop where
  /-- It is an object with the members that the event needs, and no others. -/
  members : ∃ members, json = .object members ∧ Keyed.Ordered members ∧
    ∀ name, Keyed.find? name members = event.member? name
  /-- It is read as the event. -/
  reads : ofJson? json = some event

/-- The normal form of the event that a JSON value spells. -/
def normalForm? (json : Json) : Option Json := (ofJson? json).map toJson

/-- However an event is spelled, its normal form is read as the same event: an object that has a
short type name and of the other members only those that are there. It is its own normal form, and
is checked and expanded with the same result. -/
theorem isNormalForm_of_read {json : Json} {event : WireEvent} (hread : ofJson? json = some event) :
    normalForm? json = some event.toJson ∧ event.IsNormalForm event.toJson ∧
      normalForm? event.toJson = some event.toJson ∧
      (ofJson? event.toJson).map Event.ofWire = (ofJson? json).map Event.ofWire ∧
      (ofJson? event.toJson).map Event.expand = (ofJson? json).map Event.expand := by
  have hreads := ofJson?_toJson (value?_of_ofJson? hread)
  have hagain : ofJson? event.toJson = ofJson? json := hreads.trans hread.symm
  refine ⟨?_, ⟨event.find?_toJson, hreads⟩, ?_, ?_, ?_⟩
  · rw [normalForm?, hread]
    rfl
  · rw [normalForm?, hreads]
    rfl
  · rw [hagain]
  · rw [hagain]

/-- A document under the long type name, with the greatest version, a null for its value's only
leaf, and a member that does not count. -/
def spelledDocument : Json :=
  .object [("echo", .array [.null]), ("key", .string "webapp"),
    ("type", .string "user.properties-set"), ("value", .object [("lamp", .null)]),
    ("version", .number (.whole 0xFFFF_FFFF_FFFF_FFFF (by decide)))]

theorem isNormalForm_of_read_spelledDocument :
    let event : WireEvent :=
      .set "webapp" (some (.object [("lamp", .null)])) (some ⟨0xFFFF_FFFF_FFFF_FFFF⟩)
    ofJson? spelledDocument = some event ∧
      normalForm? spelledDocument = some event.toJson ∧ event.IsNormalForm event.toJson ∧
      normalForm? event.toJson = some event.toJson ∧
      (ofJson? event.toJson).map Event.ofWire = (ofJson? spelledDocument).map Event.ofWire ∧
      (ofJson? event.toJson).map Event.expand = (ofJson? spelledDocument).map Event.expand :=
  ⟨rfl, isNormalForm_of_read rfl⟩

/-- An array may spell the same event as an object. -/
example :
    normalForm? (.array [.string "user.properties-delete", .string "lamp.on"]) =
      normalForm? (.object [("key", .string "lamp.on"), ("type", .string "delete"),
        ("value", .number (.ofUInt64 1))]) := by
  rfl

end WireEvent

end PropertyTree
