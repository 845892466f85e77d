import PropertyTree.Proofs.Event.Expansion
import PropertyTree.Proofs.Store.Views

/-! # Documents read as snapshots

A document without its version can be loaded as a snapshot, and then its leaf events are the leaves
of the store that comes of it, in path order. Loading is the stricter of the two: it looks at the
key of every object, while a document is asked only for the paths of its leaves. Nothing but a key
above no leaf at all can therefore be refused by the one and passed over by the other.
-/

namespace PropertyTree

namespace Json

mutual

/-- The value is an object without leaves: all that it holds, at any depth, is objects. -/
def isHollow : Json → Bool
  | .object members => isHollowMembers members
  | .null | .bool _ | .number _ | .string _ | .array _ => false

def isHollowMembers : List (String × Json) → Bool
  | [] => true
  | (_, value) :: rest => value.isHollow && isHollowMembers rest

end

theorem exists_members_of_isHollow {json : Json} (h : json.isHollow = true) :
    ∃ members, json = .object members := by
  cases json with
  | object members => exact ⟨members, rfl⟩
  | null | bool _ | number _ | string _ | array _ => cases h

/-- A walk that goes through the later members of an object goes through the object. -/
theorem walk?_object_cons {key next : String} {value found : Json} {rest : List (String × Json)}
    {keys : List String} (hkeys : Keyed.Ordered ((key, value) :: rest))
    (hwalk : (Json.object rest).walk? (next :: keys) = some found) :
    (Json.object ((key, value) :: rest)).walk? (next :: keys) = some found := by
  obtain ⟨child, hchild, hbelow⟩ := Option.bind_eq_some_iff.mp hwalk
  have hne : key ≠ next :=
    KeyOrder.ne_of_lt (hkeys.head_lt _ (Keyed.mem_of_find?_eq_some hchild))
  refine Option.bind_eq_some_iff.mpr ⟨child, ?_, hbelow⟩
  rw [member?, Keyed.find?_cons, if_neg hne]
  exact hchild

end Json

/-- The event that sets a leaf to the value it has. -/
def Event.ofLeaf (version : Option Version) (entry : Path × Leaf) : Event :=
  .set entry.1 entry.2.value version

/-- The snapshot error is about a key of the value that no path can address, and the value under
this key is an object without leaves. The steps lead to the value. -/
def SnapshotError.IsIdle (error : SnapshotError) (here : List Segment) (json : Json) : Prop :=
  ∃ steps key members, error = .invalidKey (Snapshot.dotted (here ++ steps)) key ∧
    (key = "" ∨ isDotted key = true) ∧
    json.walk? (steps.map (·.text) ++ [key]) = some (.object members) ∧
    (Json.object members).isHollow = true

namespace SnapshotError.IsIdle

variable {error : SnapshotError} {here : List Segment} {value : Json}
  {rest : List (String × Json)}

/-- A fault under the first member of an object is one of the object. -/
theorem of_first {step : Segment} (h : error.IsIdle (here ++ [step]) value) :
    error.IsIdle here (.object ((step.text, value) :: rest)) := by
  obtain ⟨steps, key, members, rfl, hkey, hwalk, hhollow⟩ := h
  refine ⟨step :: steps, key, members, ?_, hkey, ?_, hhollow⟩
  · rw [List.append_assoc, List.singleton_append]
  · refine Option.bind_eq_some_iff.mpr ⟨value, ?_, hwalk⟩
    rw [Json.member?, Keyed.find?_cons, if_pos rfl]

/-- A fault among the later members of an object is one of the object. -/
theorem of_rest {key : String} (hkeys : Keyed.Ordered ((key, value) :: rest))
    (h : error.IsIdle here (.object rest)) :
    error.IsIdle here (.object ((key, value) :: rest)) := by
  obtain ⟨steps, fault, members, herror, hfault, hwalk, hhollow⟩ := h
  refine ⟨steps, fault, members, herror, hfault, ?_, hhollow⟩
  cases steps with
  | nil => exact Json.walk?_object_cons hkeys hwalk
  | cons step steps => exact Json.walk?_object_cons hkeys hwalk

end SnapshotError.IsIdle

namespace Document

variable {version : Option Version}

theorem leafEvents_scalar {above : List String} {json : Json}
    (hscalar : ∀ members, json ≠ .object members) :
    leafEvents version above json =
      (Path.ofTexts above).mapError Failure.path >>= fun path =>
        Event.scalar path.dotted json >>= fun value => .ok [.set path value version] := by
  cases json with
  | object members => exact absurd rfl (hscalar members)
  | null | bool _ | number _ | string _ | array _ =>
      unfold leafEvents
      rfl

mutual

/-- What can be loaded at a path has its leaves as events. -/
theorem leafEvents_of_node {here : Path} {json : Json} {result : Node} (hordered : json.Ordered)
    (h : Snapshot.node here.segments json = .ok result) :
    leafEvents version here.texts json =
      .ok ((result.leaves here).map (Event.ofLeaf version)) := by
  cases json with
  | object members =>
      obtain ⟨children, htree, rfl⟩ := Snapshot.node_object_eq_ok_iff.mp h
      rw [Json.Ordered] at hordered
      rw [leafEvents]
      exact memberEvents_of_tree hordered.1 hordered.2 htree
  | null | bool _ | number _ | string _ | array _ =>
      rw [Snapshot.node_scalar] at h
      · split at h
        next value hvalue =>
          cases h
          rw [leafEvents_scalar, here.ofTexts_texts]
          · simp only [mapError_ok, Event.scalar, hvalue]
            rfl
          · nofun
        next => cases h
      · nofun

theorem memberEvents_of_tree {above : List Segment} {members : List (String × Json)}
    {result : Tree} (hkeys : Keyed.Ordered members) (hordered : Json.OrderedMembers members)
    (h : Snapshot.tree above members = .ok result) :
    memberEvents version (above.map (·.text)) members =
      .ok ((Tree.leaves above result).map (Event.ofLeaf version)) := by
  cases members with
  | nil =>
      cases h
      rfl
  | cons member rest =>
      obtain ⟨key, value⟩ := member
      obtain ⟨step, first, others, rfl, hfirst, hothers, rfl⟩ :=
        Snapshot.exists_cons_of_tree hkeys h
      rw [Json.OrderedMembers] at hordered
      let here : Path := ⟨above ++ [step], by simp⟩
      have htexts : here.texts = above.map (·.text) ++ [step.text] := by
        rw [Path.texts, List.map_append]
        rfl
      have hleaf : leafEvents version here.texts value = _ := leafEvents_of_node hordered.1 hfirst
      have hrest := memberEvents_of_tree hkeys.tail hordered.2 hothers
      rw [htexts] at hleaf
      rw [memberEvents, hleaf, hrest, Tree.leaves, List.map_append]
      rfl

end

mutual

/-- Under a text that is no segment, a value that expands has no leaves. -/
theorem isHollow_of_leafEvents {above : List String} {value : Json} {events : List Event}
    (habove : ∃ text ∈ above, Segment.ofText? text = none)
    (h : leafEvents version above value = .ok events) : value.isHollow = true := by
  cases value with
  | object members =>
      rw [leafEvents] at h
      exact isHollow_of_memberEvents habove h
  | null | bool _ | number _ | string _ | array _ =>
      rw [leafEvents_scalar] at h
      · obtain ⟨path, hpath, _⟩ := bind_eq_ok_iff.mp h
        obtain rfl := Path.ofTexts_eq_ok_iff.mp (mapError_eq_ok_iff.mp hpath)
        obtain ⟨text, hmem, hnone⟩ := habove
        obtain ⟨segment, _, rfl⟩ := List.mem_map.mp hmem
        rw [Segment.ofText?_eq_some_iff.mpr rfl] at hnone
        cases hnone
      · nofun

theorem isHollow_of_memberEvents {above : List String} {members : List (String × Json)}
    {events : List Event} (habove : ∃ text ∈ above, Segment.ofText? text = none)
    (h : memberEvents version above members = .ok events) :
    Json.isHollowMembers members = true := by
  cases members with
  | nil => rfl
  | cons member rest =>
      obtain ⟨name, value⟩ := member
      rw [memberEvents] at h
      obtain ⟨first, hfirst, hrest⟩ := bind_eq_ok_iff.mp h
      obtain ⟨others, hothers, _⟩ := bind_eq_ok_iff.mp hrest
      have hbelow : ∃ text ∈ above ++ [name], Segment.ofText? text = none := by
        obtain ⟨text, hmem, hnone⟩ := habove
        exact ⟨text, List.mem_append_left _ hmem, hnone⟩
      rw [Json.isHollowMembers, isHollow_of_leafEvents hbelow hfirst,
        isHollow_of_memberEvents habove hothers]
      rfl

end

mutual

/-- What expands but cannot be loaded fails at a key above no leaf. -/
theorem isIdle_of_leafEvents {here : Path} {json : Json} {events : List Event}
    {error : SnapshotError} (hordered : json.Ordered)
    (hevents : leafEvents version here.texts json = .ok events)
    (herror : Snapshot.node here.segments json = .error error) :
    error.IsIdle here.segments json := by
  cases json with
  | object members =>
      rw [leafEvents] at hevents
      rw [Snapshot.node] at herror
      rw [Json.Ordered] at hordered
      exact isIdle_of_memberEvents hordered.1 hordered.2 hevents (map_eq_error_iff.mp herror)
  | null | bool _ | number _ | string _ | array _ =>
      rw [leafEvents_scalar, here.ofTexts_texts] at hevents
      · rw [Snapshot.node_scalar] at herror
        · split at herror
          next => cases herror
          next hnone =>
            simp only [mapError_ok, Event.scalar, hnone] at hevents
            cases hevents
        · nofun
      · nofun

theorem isIdle_of_memberEvents {above : List Segment} {members : List (String × Json)}
    {events : List Event} {error : SnapshotError} (hkeys : Keyed.Ordered members)
    (hordered : Json.OrderedMembers members)
    (hevents : memberEvents version (above.map (·.text)) members = .ok events)
    (herror : Snapshot.tree above members = .error error) :
    error.IsIdle above (.object members) := by
  cases members with
  | nil => cases herror
  | cons member rest =>
      obtain ⟨key, value⟩ := member
      rw [memberEvents] at hevents
      obtain ⟨first, hfirst, hrest⟩ := bind_eq_ok_iff.mp hevents
      obtain ⟨others, hothers, _⟩ := bind_eq_ok_iff.mp hrest
      rw [Json.OrderedMembers] at hordered
      rw [Snapshot.tree] at herror
      cases hstep : Segment.ofText? key with
      | none =>
          rw [hstep] at herror
          cases herror
          -- The document gives no event below this key, so there is no leaf there.
          have hhollow := isHollow_of_leafEvents ⟨key, by simp, hstep⟩ hfirst
          obtain ⟨inner, rfl⟩ := Json.exists_members_of_isHollow hhollow
          refine ⟨[], key, inner, ?_, Segment.ofText?_eq_none_iff.mp hstep, ?_, hhollow⟩
          · rw [List.append_nil]
          · refine Option.bind_eq_some_iff.mpr ⟨.object inner, ?_, rfl⟩
            rw [Json.member?, Keyed.find?_cons, if_pos rfl]
      | some step =>
          rw [hstep] at herror
          obtain rfl := Segment.ofText?_eq_some_iff.mp hstep
          let here : Path := ⟨above ++ [step], by simp⟩
          have htexts : here.texts = above.map (·.text) ++ [step.text] := by
            rw [Path.texts, List.map_append]
            rfl
          rw [← htexts] at hfirst
          rcases bind_eq_error_iff.mp herror with hnode | ⟨_, _, hlater⟩
          · exact .of_first (isIdle_of_leafEvents hordered.1 hfirst hnode)
          · rcases bind_eq_error_iff.mp hlater with htree | ⟨_, _, hinsert⟩
            · exact .of_rest hkeys (isIdle_of_memberEvents hkeys.tail hordered.2 hothers htree)
            · cases hinsert

end

theorem version_eq {members : List (String × Json)} {own : Option UInt64}
    (hown : Keyed.find? versionKey members = own.map fun n => .number (.ofUInt64 n))
    (outer : Option Version) :
    Document.version members outer = .ok (own.map Version.mk <|> outer) := by
  rw [Document.version, hown]
  cases own with
  | none => rfl
  | some n =>
      simp only [Option.map_some, Number.toUInt64?_ofUInt64]
      rfl

theorem expand_eq {members : List (String × Json)} {own : Option UInt64}
    (hown : Keyed.find? versionKey members = own.map fun n => .number (.ofUInt64 n))
    (outer : Option Version) :
    Event.expand (.set key (some (.object members)) outer) =
      memberEvents (own.map Version.mk <|> outer) [] (Keyed.erase versionKey members) := by
  rw [Event.expand, if_pos rfl, events, version_eq hown]
  rfl

/-- A document without its version is a snapshot. If it can be loaded, its leaf events set the
leaves of the loaded store, in strictly increasing path order, all with the version of the document
or else with the one it was sent with. What expands without being loaded has a key that no path can
address, above no leaf, and what does not expand is not loaded. -/
theorem expansion_agrees_with_loading {members : List (String × Json)} {own : Option UInt64}
    (hordered : (Json.object members).Ordered)
    (hown : Keyed.find? versionKey members = own.map fun n => .number (.ofUInt64 n))
    (outer : Option Version) (store : Store) :
    let expansion := Event.expand (.set key (some (.object members)) outer)
    let contents := Keyed.erase versionKey members
    let loading := store.bulkLoad contents
    (∀ count, loading.2 = .ok count →
      expansion =
          .ok (loading.1.leaves.map (Event.ofLeaf (own.map Version.mk <|> outer))) ∧
        Keyed.Ordered loading.1.leaves) ∧
      (∀ events error, expansion = .ok events → loading.2 = .error error →
        error.IsIdle [] (.object contents)) ∧
      ∀ failure, expansion = .error failure → ∃ error, loading.2 = .error error := by
  intro expansion contents loading
  have hexpansion : expansion = memberEvents (own.map Version.mk <|> outer) [] contents :=
    expand_eq hown outer
  rw [Json.Ordered, Json.orderedMembers_iff] at hordered
  have hkeys : Keyed.Ordered contents := hordered.1.erase versionKey
  have hvalues : Json.OrderedMembers contents := by
    rw [Json.orderedMembers_iff]
    intro member hmember
    exact hordered.2 member (Keyed.mem_of_mem_erase hmember)
  have hloaded : ∀ count, loading.2 = .ok count → expansion =
      .ok (loading.1.leaves.map (Event.ofLeaf (own.map Version.mk <|> outer))) := by
    intro count hload
    obtain ⟨loaded, hstore, _⟩ := Store.bulkLoad_eq_ok_iff.mp hload
    have hloading : loading = (loaded, .ok loaded.leafCount) :=
      Store.bulkLoad_of_ofSnapshot hstore store
    rw [hexpansion, hloading]
    exact memberEvents_of_tree hkeys hvalues (Store.ofSnapshot_eq_ok_iff.mp hstore)
  refine ⟨fun count hload => ⟨hloaded count hload, loading.1.ordered_leaves⟩, ?_, ?_⟩
  · intro events error hevents herror
    rw [hexpansion] at hevents
    exact isIdle_of_memberEvents hkeys hvalues hevents (Store.tree_eq_error_of_bulkLoad herror)
  · intro failure hfailure
    cases hload : loading.2 with
    | error error => exact ⟨error, rfl⟩
    | ok count =>
        rw [hloaded count hload] at hfailure
        cases hfailure

/-- The first document has a leaf and an empty object, the second a key with a dot, the third a
value that is no scalar. -/
theorem expansion_agrees_with_loading_lamp :
    let document (members : List (String × Json)) (outer : Option Version) :=
      Event.expand (.set key (some (.object members)) outer)
    let switched := [("lamp", .object [("dim", .object []), ("on", .bool true)]),
      (versionKey, .number (.ofUInt64 7))]
    (Json.object switched).Ordered ∧
      Keyed.find? versionKey switched = (some 7).map (fun n => .number (.ofUInt64 n)) ∧
      (Store.empty.bulkLoad (Keyed.erase versionKey switched)).2 = .ok 1 ∧
      document switched none = .ok [.set .lampOn (.bool true) (some ⟨7⟩)] ∧
      document [("lamp.on", .object [])] none = .ok [] ∧
      (Store.empty.bulkLoad [("lamp.on", .object [])]).2 = .error (.invalidKey "" "lamp.on") ∧
      (SnapshotError.invalidKey "" "lamp.on").IsIdle [] (.object [("lamp.on", .object [])]) ∧
      (∃ failure, document [("lamp", .null)] none = .error failure) ∧
      ∃ error, (Store.empty.bulkLoad [("lamp", .null)]).2 = .error error := by
  intro document switched
  have hswitched : (Json.object switched).Ordered := by
    simp only [switched, Json.Ordered, Json.OrderedMembers, Keyed.Ordered, List.pairwise_pair]
    decide
  have hdotted : (Json.object [("lamp.on", .object [])]).Ordered := by
    simp [Json.Ordered, Json.OrderedMembers, Keyed.Ordered]
  have hnull : (Json.object [("lamp", .null)]).Ordered := by
    simp [Json.Ordered, Json.OrderedMembers, Keyed.Ordered]
  have hload : (Store.empty.bulkLoad (Keyed.erase versionKey switched)).2 = .ok 1 := rfl
  have hrefused : (Store.empty.bulkLoad [("lamp.on", .object [])]).2 =
      .error (.invalidKey "" "lamp.on") := rfl
  have hfails : ∃ failure, document [("lamp", .null)] none = .error failure := ⟨_, rfl⟩
  obtain ⟨failure, hfailure⟩ := hfails
  have hown : Keyed.find? versionKey switched = (some 7).map (fun n => .number (.ofUInt64 n)) := rfl
  have hbare : ∀ name value, name ≠ versionKey → Keyed.find? versionKey [(name, value)] =
      none.map (fun n => Json.number (.ofUInt64 n)) := by
    intro name value hne
    simp [Keyed.find?, hne]
  have hfirst := expansion_agrees_with_loading hswitched hown none .empty
  have hsecond := expansion_agrees_with_loading hdotted (hbare _ _ (by decide)) none .empty
  have hthird := expansion_agrees_with_loading hnull (hbare _ _ (by decide)) none .empty
  exact ⟨hswitched, rfl, hload, (hfirst.1 1 hload).1, rfl, hrefused,
    hsecond.2.1 [] _ rfl hrefused, ⟨failure, hfailure⟩, hthird.2.2 failure hfailure⟩

end Document

end PropertyTree
