import PropertyTree.Proofs.Store.Loading
import PropertyTree.Proofs.Store.Slot

/-! # Faults of a snapshot

The members of a snapshot at all depths are listed depth first, in the order in which loading looks
at them. Each is sound or has a fault of its own: a key that is no segment, or a value that is
neither an object nor a scalar. The first fault in the list is the error of the load, and without
one the scalars in the list are the leaves of the loaded tree, one for one.
-/

namespace PropertyTree

namespace Json

/-- The value is an object. -/
def isObject : Json → Bool
  | .object _ => true
  | .null | .bool _ | .number _ | .string _ | .array _ => false

/-- The value is a boolean, a number or a text. -/
def isScalar : Json → Bool
  | .bool _ | .number _ | .string _ => true
  | .null | .array _ | .object _ => false

end Json

namespace Snapshot

/-- A member of an object in a snapshot, with the keys that lead to the object. -/
structure Member where
  above : List String
  key : String
  value : Json

namespace Member

/-- The keys that lead to the member. -/
def keys (member : Member) : List String := member.above ++ [member.key]

/-- The key is not empty and has no dots, and the value is an object or a scalar. -/
def Sound (member : Member) : Prop :=
  (member.key ≠ "" ∧ isDotted member.key = false) ∧
    (member.value.isObject = true ∨ member.value.isScalar = true)

/-- What is wrong with the member; its key is looked at first. -/
def fault? (member : Member) : Option SnapshotError :=
  if member.key = "" ∨ isDotted member.key = true then
    some (.invalidKey (joinDots member.above) member.key)
  else if member.value.isObject = true ∨ member.value.isScalar = true then none
  else some (.nonScalarLeaf (joinDots member.keys))

/-- The leaf that the member stands for, if its value is a scalar. -/
def leaf? (member : Member) : Option (List String × Value) :=
  (Value.ofJson? member.value).map fun value => (member.keys, value)

theorem fault?_eq_none_iff {member : Member} : member.fault? = none ↔ member.Sound := by
  rw [fault?, Sound]
  by_cases hkey : member.key = "" ∨ isDotted member.key = true
  · rw [if_pos hkey]
    rcases hkey with hempty | hdotted
    · simp [hempty]
    · simp [hdotted]
  · rw [if_neg hkey]
    obtain ⟨hempty, hdotted⟩ := not_or.mp hkey
    by_cases hvalue : member.value.isObject = true ∨ member.value.isScalar = true
    · simp [hempty, hdotted, hvalue]
    · simp [hvalue]

end Member

mutual

/-- The members inside a value to which these keys lead. -/
def inside (here : List String) : Json → List Member
  | .object members => listing here members
  | .null | .bool _ | .number _ | .string _ | .array _ => []

/-- The members of an object to which these keys lead, each with those inside it, depth first in
key order. -/
def listing (here : List String) : List (String × Json) → List Member
  | [] => []
  | (key, value) :: rest =>
    ⟨here, key, value⟩ :: inside (here ++ [key]) value ++ listing here rest

end

/-- A member with those inside it. -/
def withInside (here : List String) (key : String) (value : Json) : List Member :=
  ⟨here, key, value⟩ :: inside (here ++ [key]) value

theorem listing_cons (here : List String) (key : String) (value : Json)
    (rest : List (String × Json)) :
    listing here ((key, value) :: rest) = withInside here key value ++ listing here rest := by
  rw [listing, withInside]

/-- The keys along some steps and one more. -/
theorem map_text_snoc (above : List Segment) (step : Segment) :
    (above ++ [step]).map (·.text) = above.map (·.text) ++ [step.text] := by
  rw [List.map_append, List.map_singleton]

mutual

/-- A member whose key is a segment fails to load by the first fault in it. -/
theorem failure?_node (above : List Segment) (step : Segment) (json : Json) :
    failure? (node (above ++ [step]) json) =
      (withInside (above.map (·.text)) step.text json).findSome? Member.fault? := by
  have hkey : ¬ (step.text = "" ∨ isDotted step.text = true) := by
    rintro (hempty | hdotted)
    · exact step.nonempty hempty
    · exact absurd hdotted (Bool.eq_false_iff.mp step.undotted)
  cases json with
  | object members =>
      have hsound : Member.fault? ⟨above.map (·.text), step.text, .object members⟩ = none := by
        rw [Member.fault?, if_neg hkey]
        rfl
      rw [node, failure?_map, failure?_tree, withInside, List.findSome?_cons, hsound, inside,
        map_text_snoc]
  | bool _ | number _ | string _ =>
      have hsound : ∀ value : Json, value.isScalar = true →
          Member.fault? ⟨above.map (·.text), step.text, value⟩ = none := by
        intro value hscalar
        rw [Member.fault?, if_neg hkey, if_pos (Or.inr hscalar)]
      rw [node_scalar, withInside, List.findSome?_cons, hsound _ rfl, inside]
      · rfl
      · nofun
  | null | array _ =>
      have hfault : ∀ value : Json, value.isObject = false → value.isScalar = false →
          Member.fault? ⟨above.map (·.text), step.text, value⟩ =
            some (.nonScalarLeaf (dotted (above ++ [step]))) := by
        intro value hobject hscalar
        rw [Member.fault?, if_neg hkey, dotted, map_text_snoc]
        simp [hobject, hscalar, Member.keys]
      rw [node_scalar, withInside, List.findSome?_cons, hfault _ rfl rfl]
      · rfl
      · nofun

/-- An object fails to load by the first fault in its listing. -/
theorem failure?_tree (here : List Segment) (members : List (String × Json)) :
    failure? (tree here members) =
      (listing (here.map (·.text)) members).findSome? Member.fault? := by
  cases members with
  | nil => rfl
  | cons member rest =>
      obtain ⟨key, value⟩ := member
      rw [tree, listing_cons, List.findSome?_append]
      cases hstep : Segment.ofText? key with
      | none =>
          -- Nothing below the key is looked at.
          have hfault : Member.fault? ⟨here.map (·.text), key, value⟩ =
              some (.invalidKey (dotted here) key) :=
            if_pos (Segment.ofText?_eq_none_iff.mp hstep)
          rw [withInside, List.findSome?_cons, hfault]
          rfl
      | some step =>
          obtain rfl := Segment.ofText?_eq_some_iff.mp hstep
          rw [← failure?_node here step value, ← failure?_tree here rest]
          refine failure?_bind fun first => ?_
          refine (failure?_bind fun others => ?_).trans (Option.or_none)
          rfl

end

mutual

/-- The leaves of a member that loads are the scalars in it. -/
theorem leaves_of_node {above : List Segment} {step : Segment} {json : Json} {result : Node}
    (hordered : json.Ordered) (h : node (above ++ [step]) json = .ok result) :
    (result.leaves ⟨above ++ [step], by simp⟩).map (fun entry => (entry.1.texts, entry.2.value)) =
      (withInside (above.map (·.text)) step.text json).filterMap Member.leaf? := by
  cases json with
  | object members =>
      obtain ⟨children, htree, rfl⟩ := node_object_eq_ok_iff.mp h
      rw [Json.Ordered] at hordered
      have hleaves := leaves_of_tree hordered.1 hordered.2 htree
      rw [map_text_snoc] at hleaves
      rw [Node.leaves, withInside, List.filterMap_cons_none rfl, inside]
      exact hleaves
  | bool _ | number _ | string _ =>
      rw [node_scalar] at h
      · cases h
        exact congrArg (fun texts => [(texts, _)]) (map_text_snoc above step)
      · nofun
  | null | array _ =>
      rw [node_scalar] at h
      · cases h
      · nofun

theorem leaves_of_tree {here : List Segment} {members : List (String × Json)} {result : Tree}
    (hkeys : Keyed.Ordered members) (hordered : Json.OrderedMembers members)
    (h : tree here members = .ok result) :
    (Tree.leaves here result).map (fun entry => (entry.1.texts, entry.2.value)) =
      (listing (here.map (·.text)) members).filterMap Member.leaf? := by
  cases members with
  | nil =>
      cases h
      rfl
  | cons member rest =>
      obtain ⟨key, value⟩ := member
      obtain ⟨step, first, others, rfl, hfirst, hothers, rfl⟩ := exists_cons_of_tree hkeys h
      rw [Json.OrderedMembers] at hordered
      rw [Tree.leaves, List.map_append, leaves_of_node hordered.1 hfirst,
        leaves_of_tree hkeys.tail hordered.2 hothers, listing_cons, List.filterMap_append]

end

/-- Every member of the snapshot, at any depth, is sound. -/
def Sound (members : List (String × Json)) : Prop := ∀ member ∈ listing [] members, member.Sound

/-- The first member of the snapshot that is not sound has this fault. -/
def FirstFault (members : List (String × Json)) (error : SnapshotError) : Prop :=
  ∃ before member after, listing [] members = before ++ member :: after ∧
    (∀ earlier ∈ before, earlier.Sound) ∧ member.fault? = some error

/-- The snapshot has a leaf with this value at the path. -/
def LeafAt (members : List (String × Json)) (path : Path) (value : Value) : Prop :=
  ∃ member ∈ listing [] members, member.keys = path.texts ∧
    Value.ofJson? member.value = some value

theorem isSome_leaf? (member : Member) : member.leaf?.isSome = member.value.isScalar := by
  rw [Member.leaf?, Option.isSome_map]
  cases member.value <;> rfl

theorem leafAt_iff {members : List (String × Json)} {path : Path} {value : Value} :
    LeafAt members path value ↔
      (path.texts, value) ∈ (listing [] members).filterMap Member.leaf? := by
  simp only [LeafAt, List.mem_filterMap, Member.leaf?, Option.map_eq_some_iff, Prod.mk.injEq]
  refine exists_congr fun member => and_congr_right fun _ => ?_
  constructor
  · rintro ⟨hkeys, hvalue⟩
    exact ⟨value, hvalue, hkeys, rfl⟩
  · rintro ⟨_, hvalue, hkeys, rfl⟩
    exact ⟨hkeys, hvalue⟩

end Snapshot

namespace Store

variable {members : List (String × Json)} {store : Store}

theorem failure?_ofSnapshot (members : List (String × Json)) :
    failure? (ofSnapshot members) =
      (Snapshot.listing [] members).findSome? Snapshot.Member.fault? := by
  have htree := Snapshot.failure?_tree [] members
  rw [List.map_nil] at htree
  rw [← htree, ofSnapshot]
  split
  next tree hload => exact congrArg failure? hload.symm
  next error hload => exact congrArg failure? hload.symm

theorem exists_ofSnapshot_iff :
    (∃ store, ofSnapshot members = .ok store) ↔ Snapshot.Sound members := by
  rw [← failure?_eq_none_iff, failure?_ofSnapshot, List.findSome?_eq_none_iff]
  simp only [Snapshot.Member.fault?_eq_none_iff, Snapshot.Sound]

theorem ofSnapshot_eq_error_iff {error : SnapshotError} :
    ofSnapshot members = .error error ↔ Snapshot.FirstFault members error := by
  rw [← failure?_eq_some_iff, failure?_ofSnapshot, List.findSome?_eq_some_iff]
  simp only [Snapshot.Member.fault?_eq_none_iff, Snapshot.FirstFault]
  refine exists_congr fun _ => exists_congr fun _ => exists_congr fun _ => ?_
  exact and_congr_right fun _ => and_comm

/-- A loaded store holds the scalars of the snapshot, one for one. -/
theorem leaves_ofSnapshot (hordered : (Json.object members).Ordered)
    (h : ofSnapshot members = .ok store) :
    store.leaves.map (fun entry => (entry.1.texts, entry.2.value)) =
      (Snapshot.listing [] members).filterMap Snapshot.Member.leaf? := by
  rw [Json.Ordered] at hordered
  exact Snapshot.leaves_of_tree hordered.1 hordered.2 (ofSnapshot_eq_ok_iff.mp h)

theorem leafCount_ofSnapshot (hordered : (Json.object members).Ordered)
    (h : ofSnapshot members = .ok store) :
    store.leafCount = (Snapshot.listing [] members).countP (·.value.isScalar) := by
  have hleaves := congrArg List.length (leaves_ofSnapshot hordered h)
  rw [List.length_map, List.length_filterMap_eq_countP] at hleaves
  rw [leafCount_eq, hleaves]
  exact List.countP_congr fun member _ => by rw [Snapshot.isSome_leaf?]

theorem exists_mem_leaves_ofSnapshot_iff (hordered : (Json.object members).Ordered)
    (h : ofSnapshot members = .ok store) {path : Path} {value : Value} :
    (∃ entry ∈ store.leaves, entry.1 = path ∧ entry.2.value = value) ↔
      Snapshot.LeafAt members path value := by
  rw [Snapshot.leafAt_iff, ← leaves_ofSnapshot hordered h, List.mem_map]
  refine exists_congr fun entry => and_congr_right fun _ => ?_
  rw [Prod.mk.injEq]
  refine and_congr_left fun _ => ⟨congrArg Path.texts, ?_⟩
  intro htexts
  exact Except.ok.inj ((Path.ofTexts_eq_ok_iff.mpr htexts).symm.trans path.ofTexts_texts)

theorem get?_ofSnapshot_eq_some_iff (hordered : (Json.object members).Ordered)
    (h : ofSnapshot members = .ok store) {path : Path} {value : Value} :
    store.get? path = some value ↔ Snapshot.LeafAt members path value := by
  rw [← exists_mem_leaves_ofSnapshot_iff hordered h, get?, Option.map_eq_some_iff]
  simp only [leaf?_eq_some_iff, ← mem_leaves_iff]
  constructor
  · rintro ⟨held, hmem, rfl⟩
    exact ⟨(path, held), hmem, rfl, rfl⟩
  · rintro ⟨⟨_, held⟩, hmem, rfl, rfl⟩
    exact ⟨held, hmem, rfl⟩

end Store

end PropertyTree
