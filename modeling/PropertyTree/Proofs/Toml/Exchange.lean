import Mathlib.Data.List.Basic
import PropertyTree.Proofs.Keyed
import PropertyTree.Toml.Value

/-! # JSON values as TOML values

A JSON value has a TOML form unless a null or an integer that is too large occurs in it, and is got
back from the form. The members of a TOML table have no order; arranged by their keys, they are
those of the ordered JSON value.
-/

namespace PropertyTree

namespace Json

/-- The items of an array, or the values of an object's members. -/
def children : Json → List Json
  | .array items => items
  | .object members => members.map (·.2)
  | .null | .bool _ | .number _ | .string _ => []

/-- The part is the value itself or stands in it at some depth. -/
inductive Occurs (part : Json) : Json → Prop
  | self : Occurs part part
  | deeper {child json : Json} : child ∈ json.children → Occurs part child → Occurs part json

/-- A null, or an integer above the signed 64-bit range. -/
def LacksToml : Json → Prop
  | .null => True
  | .number (.whole n _) => 0x7FFF_FFFF_FFFF_FFFF < n
  | .bool _ | .number (.float _) | .string _ | .array _ | .object _ => False

/-- Something that has no TOML form occurs in the value. -/
def HasGap (json : Json) : Prop := ∃ part, Occurs part json ∧ LacksToml part

theorem hasGap_iff {json : Json} :
    json.HasGap ↔ json.LacksToml ∨ ∃ child ∈ json.children, child.HasGap := by
  constructor
  · rintro ⟨part, hoccurs, hlacks⟩
    cases hoccurs with
    | self => exact Or.inl hlacks
    | deeper hmem hoccurs => exact Or.inr ⟨_, hmem, part, hoccurs, hlacks⟩
  · rintro (hlacks | ⟨child, hmem, part, hoccurs, hlacks⟩)
    · exact ⟨json, .self, hlacks⟩
    · exact ⟨part, .deeper hmem hoccurs, hlacks⟩

theorem hasGap_array_iff {items : List Json} :
    (Json.array items).HasGap ↔ ∃ item ∈ items, item.HasGap := by
  rw [hasGap_iff, children, LacksToml, false_or]

theorem hasGap_object_iff {members : List (String × Json)} :
    (Json.object members).HasGap ↔ ∃ member ∈ members, member.2.HasGap := by
  rw [hasGap_iff, children, LacksToml, false_or]
  simp only [List.mem_map, exists_exists_and_eq_and]

mutual

/-- The value with the members of every object in key order. -/
def arranged : Json → Json
  | .array items => .array (arrangedItems items)
  | .object members => .object (arrangedMembers members)
  | .null => .null
  | .bool value => .bool value
  | .number value => .number value
  | .string value => .string value

def arrangedItems : List Json → List Json
  | [] => []
  | item :: rest => item.arranged :: arrangedItems rest

def arrangedMembers : List (String × Json) → List (String × Json)
  | [] => []
  | (key, value) :: rest => Keyed.insert key value.arranged (arrangedMembers rest)

end

theorem arrangedItems_eq (items : List Json) : arrangedItems items = items.map arranged := by
  induction items with
  | nil => rfl
  | cons item rest ih => rw [arrangedItems, ih, List.map_cons]

theorem find?_arrangedMembers (key : String) (members : List (String × Json)) :
    Keyed.find? key (arrangedMembers members) = (Keyed.find? key members).map arranged := by
  induction members with
  | nil => rfl
  | cons member rest ih =>
      obtain ⟨first, value⟩ := member
      rw [arrangedMembers, Keyed.find?_insert, Keyed.find?_cons, ih]
      split <;> rfl

mutual

theorem arranged_of_ordered {json : Json} (h : json.Ordered) : json.arranged = json := by
  cases json with
  | null | bool _ | number _ | string _ => rfl
  | array items => rw [arranged, arrangedItems_of_ordered h]
  | object members =>
      rw [Ordered] at h
      rw [arranged, arrangedMembers_of_ordered h.1 h.2]

theorem arrangedItems_of_ordered {items : List Json} (h : OrderedItems items) :
    arrangedItems items = items := by
  cases items with
  | nil => rfl
  | cons item rest =>
      rw [OrderedItems] at h
      rw [arrangedItems, arranged_of_ordered h.1, arrangedItems_of_ordered h.2]

theorem arrangedMembers_of_ordered {members : List (String × Json)}
    (hkeys : Keyed.Ordered members) (h : OrderedMembers members) :
    arrangedMembers members = members := by
  cases members with
  | nil => rfl
  | cons member rest =>
      obtain ⟨key, value⟩ := member
      rw [OrderedMembers] at h
      rw [arrangedMembers, arranged_of_ordered h.1, arrangedMembers_of_ordered hkeys.tail h.2]
      -- The key comes before those of the rest, so it is put in front again.
      exact Keyed.insert_of_forall_lt hkeys.head_lt value

end

end Json

namespace Toml

theorem ofInt?_eq_none_iff {n : Int} (hlow : -0x8000_0000_0000_0000 ≤ n) :
    ofInt? n = none ↔ 0x7FFF_FFFF_FFFF_FFFF < n := by
  rw [ofInt?]
  split
  next hfits => exact ⟨nofun, fun hlarge => by omega⟩
  next hfits => exact ⟨fun _ => by omega, fun _ => rfl⟩

mutual

theorem ofJson?_eq_none_iff (json : Json) : ofJson? json = none ↔ json.HasGap := by
  cases json with
  | null | bool _ | string _ =>
      rw [Json.hasGap_iff]
      simp [ofJson?, Json.LacksToml, Json.children]
  | number n =>
      rw [Json.hasGap_iff]
      cases n with
      | whole n hrange =>
          simp [ofJson?, ofInt?_eq_none_iff hrange.1, Json.LacksToml, Json.children]
      | float f => simp [ofJson?, Json.LacksToml, Json.children]
  | array items =>
      rw [ofJson?, Option.map_eq_none_iff, ofItems?_eq_none_iff items, Json.hasGap_array_iff]
  | object members =>
      rw [ofJson?, Option.map_eq_none_iff, ofMembers?_eq_none_iff members, Json.hasGap_object_iff]

theorem ofItems?_eq_none_iff (items : List Json) :
    ofItems? items = none ↔ ∃ item ∈ items, item.HasGap := by
  cases items with
  | nil => simp [ofItems?]
  | cons item rest =>
      rw [List.exists_mem_cons_iff, ← ofJson?_eq_none_iff item, ← ofItems?_eq_none_iff rest,
        ofItems?]
      cases ofJson? item <;> cases ofItems? rest <;> simp

theorem ofMembers?_eq_none_iff (members : List (String × Json)) :
    ofMembers? members = none ↔ ∃ member ∈ members, member.2.HasGap := by
  cases members with
  | nil => simp [ofMembers?]
  | cons member rest =>
      obtain ⟨key, value⟩ := member
      rw [List.exists_mem_cons_iff, ← ofJson?_eq_none_iff value, ← ofMembers?_eq_none_iff rest,
        ofMembers?]
      cases ofJson? value <;> cases ofMembers? rest <;> simp

end

mutual

theorem toJson_of_ofJson? {json : Json} {toml : Toml} (h : ofJson? json = some toml) :
    toml.toJson = json := by
  cases json with
  | null => cases h
  | bool _ | string _ =>
      cases h
      rfl
  | number n =>
      cases n with
      | whole n hrange =>
          rw [ofJson?, ofInt?] at h
          split at h
          next =>
            cases h
            rfl
          next => cases h
      | float f =>
          cases h
          rfl
  | array items =>
      obtain ⟨values, hvalues, rfl⟩ := Option.map_eq_some_iff.mp h
      rw [toJson, jsonItems_of_ofItems? hvalues]
  | object members =>
      obtain ⟨values, hvalues, rfl⟩ := Option.map_eq_some_iff.mp h
      rw [toJson, jsonMembers_of_ofMembers? hvalues]

theorem jsonItems_of_ofItems? {items : List Json} {values : List Toml}
    (h : ofItems? items = some values) : jsonItems values = items := by
  cases items with
  | nil =>
      cases h
      rfl
  | cons item rest =>
      obtain ⟨first, hfirst, h⟩ := Option.bind_eq_some_iff.mp h
      obtain ⟨others, hothers, h⟩ := Option.bind_eq_some_iff.mp h
      cases h
      rw [jsonItems, toJson_of_ofJson? hfirst, jsonItems_of_ofItems? hothers]

theorem jsonMembers_of_ofMembers? {members : List (String × Json)} {values : List (String × Toml)}
    (h : ofMembers? members = some values) : jsonMembers values = members := by
  cases members with
  | nil =>
      cases h
      rfl
  | cons member rest =>
      obtain ⟨key, value⟩ := member
      obtain ⟨first, hfirst, h⟩ := Option.bind_eq_some_iff.mp h
      obtain ⟨others, hothers, h⟩ := Option.bind_eq_some_iff.mp h
      cases h
      rw [jsonMembers, toJson_of_ofJson? hfirst, jsonMembers_of_ofMembers? hothers]

end

mutual

/-- The value with the members of every table in key order. -/
def arranged : Toml → Toml
  | .array items => .array (arrangedItems items)
  | .table members => .table (arrangedMembers members)
  | .string value => .string value
  | .integer value inRange => .integer value inRange
  | .float value => .float value
  | .boolean value => .boolean value
  | .datetime text => .datetime text

def arrangedItems : List Toml → List Toml
  | [] => []
  | item :: rest => item.arranged :: arrangedItems rest

def arrangedMembers : List (String × Toml) → List (String × Toml)
  | [] => []
  | (key, value) :: rest => Keyed.insert key value.arranged (arrangedMembers rest)

end

theorem jsonMembers_insert (key : String) (value : Toml) (members : List (String × Toml)) :
    jsonMembers (Keyed.insert key value members) =
      Keyed.insert key value.toJson (jsonMembers members) := by
  induction members with
  | nil => rfl
  | cons member rest ih =>
      obtain ⟨first, old⟩ := member
      rw [Keyed.insert, jsonMembers, Keyed.insert]
      split
      next => rfl
      next =>
        split
        next => rfl
        next => rw [jsonMembers, ih]

mutual

theorem toJson_arranged (toml : Toml) : toml.arranged.toJson = toml.toJson.arranged := by
  cases toml with
  | string _ | integer _ _ | boolean _ | datetime _ => rfl
  | float value => cases value <;> rfl
  | array items => rw [arranged, toJson, toJson, Json.arranged, jsonItems_arrangedItems items]
  | table members =>
      rw [arranged, toJson, toJson, Json.arranged, jsonMembers_arrangedMembers members]

theorem jsonItems_arrangedItems (items : List Toml) :
    jsonItems (arrangedItems items) = Json.arrangedItems (jsonItems items) := by
  cases items with
  | nil => rfl
  | cons item rest =>
      rw [arrangedItems, jsonItems, jsonItems, Json.arrangedItems, toJson_arranged item,
        jsonItems_arrangedItems rest]

theorem jsonMembers_arrangedMembers (members : List (String × Toml)) :
    jsonMembers (arrangedMembers members) = Json.arrangedMembers (jsonMembers members) := by
  cases members with
  | nil => rfl
  | cons member rest =>
      obtain ⟨key, value⟩ := member
      rw [arrangedMembers, jsonMembers_insert, jsonMembers, Json.arrangedMembers,
        toJson_arranged value, jsonMembers_arrangedMembers rest]

end

end Toml

end PropertyTree
