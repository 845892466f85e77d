import PropertyTree.Proofs.Schema.PrefixFree
import PropertyTree.Proofs.Store.LeafMap
import PropertyTree.Proofs.Store.Loading

/-! # The views of a store

A store can be read leaf by leaf, as a list of leaves, and in part or as a whole as JSON. These are
views of one tree: a walk through the JSON by the segments of a path ends at what the path holds,
and the list has the leaves that the single reads find, in path order and none above another.
-/

namespace PropertyTree

namespace Json

mutual

/-- The keys of the objects in a value, at every depth. -/
def keys : Json → List String
  | .array items => keysOfItems items
  | .object members => keysOfMembers members
  | .null | .bool _ | .number _ | .string _ => []

def keysOfItems : List Json → List String
  | [] => []
  | item :: rest => item.keys ++ keysOfItems rest

def keysOfMembers : List (String × Json) → List String
  | [] => []
  | (key, value) :: rest => key :: value.keys ++ keysOfMembers rest

end

/-- The value at the end of a walk by keys. -/
def walk? : List String → Json → Option Json
  | [], json => some json
  | key :: rest, json => (json.member? key).bind (walk? rest)

end Json

theorem Value.toJson_inj {left right : Value} : left.toJson = right.toJson ↔ left = right := by
  constructor
  · intro heq
    have hread := congrArg Value.ofJson? heq
    rwa [ofJson?_toJson, ofJson?_toJson, Option.some.injEq] at hread
  · exact congrArg Value.toJson

theorem Value.toJson_ne_object (value : Value) (members : List (String × Json)) :
    value.toJson ≠ .object members := by
  cases value <;> nofun

theorem Value.member?_toJson (value : Value) (key : String) :
    value.toJson.member? key = none := by
  cases value <;> rfl

/-- All keys in the value are texts of segments. -/
def Json.HasSegmentKeys (json : Json) : Prop :=
  ∀ key ∈ json.keys, key ≠ "" ∧ isDotted key = false

mutual

theorem Node.hasSegmentKeys (node : Node) : node.toJson.HasSegmentKeys := by
  cases node with
  | leaf held =>
      have hnone : held.value.toJson.keys = [] := by cases held.value <;> rfl
      rw [Node.toJson, Json.HasSegmentKeys, hnone]
      exact List.forall_mem_nil _
  | branch children => exact Tree.hasSegmentKeys children

theorem Tree.hasSegmentKeys (tree : List (Segment × Node)) :
    (Json.object (Tree.members tree)).HasSegmentKeys := by
  cases tree with
  | nil => exact List.forall_mem_nil _
  | cons entry rest =>
      obtain ⟨step, node⟩ := entry
      have hnode := Node.hasSegmentKeys node
      have hrest := Tree.hasSegmentKeys rest
      rw [Json.HasSegmentKeys, Json.keys] at hrest ⊢
      rw [Tree.members, Json.keysOfMembers, List.cons_append, List.forall_mem_cons,
        List.forall_mem_append]
      exact ⟨⟨step.nonempty, step.undotted⟩, hnode, hrest⟩

end

theorem Tree.find?_members (step : Segment) (tree : List (Segment × Node)) :
    Keyed.find? step.text (Tree.members tree) = (Keyed.find? step tree).map Node.toJson := by
  induction tree with
  | nil => rfl
  | cons entry rest ih =>
      obtain ⟨other, node⟩ := entry
      rw [Tree.members, Keyed.find?_cons, Keyed.find?_cons, ih]
      by_cases heq : other = step
      · rw [if_pos heq, if_pos (congrArg Segment.text heq)]
        rfl
      · rw [if_neg heq, if_neg fun htext => heq (Segment.ext htext)]

/-- A walk through the JSON of a tree ends at the JSON of what the walk through the tree ends at. -/
theorem Tree.walk?_members (steps : List Segment) (tree : Tree) :
    (Json.object (Tree.members tree)).walk? (steps.map (·.text)) =
      (tree.node? steps).map Node.toJson := by
  induction steps generalizing tree with
  | nil => rfl
  | cons step rest ih =>
      rw [List.map_cons, Json.walk?, Json.member?, find?_members, node?]
      cases Keyed.find? step tree with
      | none => rfl
      | some child =>
          cases child with
          | branch children => exact ih children
          | leaf held =>
              cases rest with
              | nil => rfl
              | cons next rest =>
                  change (held.value.toJson.member? next.text).bind _ = none
                  rw [Value.member?_toJson]
                  rfl

namespace Store

variable {store : Store} {path : Path}

theorem mem_values_leaves_iff {value : Value} :
    (path, value) ∈ Keyed.mapValues Leaf.value store.leaves ↔ store.get? path = some value := by
  rw [Keyed.mapValues, List.mem_map, get?, Option.map_eq_some_iff]
  constructor
  · rintro ⟨⟨_, held⟩, hmem, heq⟩
    cases heq
    refine ⟨held, ?_, rfl⟩
    rw [← get?_flat]
    exact store.flat.get?_eq_some_iff.mpr hmem
  · rintro ⟨held, hleaf, rfl⟩
    rw [← get?_flat] at hleaf
    exact ⟨(path, held), store.flat.get?_eq_some_iff.mp hleaf, rfl⟩

theorem subtree?_eq_some_iff {value : Value} :
    store.subtree? path = some value.toJson ↔ store.get? path = some value := by
  rw [subtree?, get?, leaf?]
  cases store.node? path with
  | none => simp
  | some node =>
      cases node with
      | leaf held => simp [Node.toJson, Value.toJson_inj]
      | branch children => simp [Node.toJson, (Value.toJson_ne_object value _).symm]

theorem subtree?_eq_walk? (store : Store) (path : Path) :
    store.subtree? path = store.toJson.walk? path.texts :=
  (Tree.walk?_members path.segments store.tree).symm

/-- No leaf lies above another. -/
theorem isAbove_of_mem_leaves {left right : Path × Leaf} (hleft : left ∈ store.leaves)
    (hright : right ∈ store.leaves) : left.1.isAbove right.1 = false := by
  rw [Bool.eq_false_iff]
  intro habove
  obtain ⟨hleads, hne⟩ := Path.isAbove_iff.mp habove
  have hthere : store.layout right.1 ≠ .vacant := by
    rw [mem_leaves_iff.mp hright]
    exact Site.leaf_ne_vacant right.2
  have hbranch := store.layout_above hleads hne hthere
  rw [mem_leaves_iff.mp hleft] at hbranch
  cases hbranch

/-- All reads of a store agree, in whatever way it has come about. Its keys are segments; the list
of leaves is in strictly increasing path order, has no leaf above another and is as long as the
number of leaves; and at every path it has the value that is read there, which is also the scalar
that a walk through the JSON of the store ends at. Where such a walk ends at an object, that object
is read, and nowhere else is one. -/
theorem views_agree (store : Store) :
    (∀ key ∈ store.toJson.keys, key ≠ "" ∧ isDotted key = false) ∧
      Keyed.Ordered (Keyed.mapValues Leaf.value store.leaves) ∧
      (∀ left ∈ store.leaves, ∀ right ∈ store.leaves, left.1.isAbove right.1 = false) ∧
      store.leafCount = store.leaves.length ∧
      ∀ path : Path,
        (∀ value, store.get? path = some value ↔
          (path, value) ∈ Keyed.mapValues Leaf.value store.leaves) ∧
        (∀ value, store.get? path = some value ↔ store.subtree? path = some value.toJson) ∧
        store.contains path = (store.get? path).isSome ∧
        ((store.version? path).isSome = true → store.contains path = true) ∧
        store.subtree? path = store.toJson.walk? path.texts := by
  refine ⟨Tree.hasSegmentKeys store.tree, store.ordered_leaves.mapValues _, ?_,
    store.leafCount_eq, ?_⟩
  · intro left hleft right hright
    exact isAbove_of_mem_leaves hleft hright
  · intro path
    refine ⟨fun value => mem_values_leaves_iff.symm, fun value => subtree?_eq_some_iff.symm,
      ?_, ?_, store.subtree?_eq_walk? path⟩
    · rw [contains, get?, Option.isSome_map]
    · rw [version?, contains]
      cases store.leaf? path with
      | none => simp
      | some held => simp

/-- A store with a leaf that has a version, next to an empty branch. -/
def litLamp : Store :=
  ((Store.empty.bulkLoad [("lamp", .object [("dim", .object [])])]).1.applyAll ⟨false⟩ .lamp
    [.set .lampOn (.bool true) (some ⟨3⟩)]).1

theorem views_agree_litLamp :
    "dim" ∈ litLamp.toJson.keys ∧ isDotted "dim" = false ∧
      (Path.lampOn, ⟨.bool true, some ⟨3⟩⟩) ∈ litLamp.leaves ∧
      Path.lampOn.isAbove Path.lampOn = false ∧
      (litLamp.version? .lampOn).isSome = true ∧ litLamp.contains .lampOn = true := by
  obtain ⟨hkeys, _, hleaves, _, hreads⟩ := views_agree litLamp
  have hkey : "dim" ∈ litLamp.toJson.keys := .tail _ (.head _)
  have hleaf : (Path.lampOn, ⟨.bool true, some ⟨3⟩⟩) ∈ litLamp.leaves := .head _
  have hversion : (litLamp.version? .lampOn).isSome = true := rfl
  exact ⟨hkey, (hkeys "dim" hkey).2, hleaf, hleaves _ hleaf _ hleaf, hversion,
    (hreads .lampOn).2.2.2.1 hversion⟩

end Store

end PropertyTree
