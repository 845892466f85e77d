import PropertyTree.Proofs.Except
import PropertyTree.Proofs.Keyed
import PropertyTree.Proofs.Path.Dotted
import PropertyTree.Proofs.Store.Leaves
import PropertyTree.Store.Snapshot

/-! # Snapshots there and back

A snapshot that is loaded and read again comes back with its numbers in normal form and is otherwise
unchanged. The other way round, what is read off a store loads into a store with the same values:
only the versions, which are no part of a snapshot, are lost.
-/

namespace PropertyTree

/-- An integer of 64 bits with sign is one of 64 bits with or without sign. -/
theorem Number.whole_of_signed {n : Int}
    (h : -0x8000_0000_0000_0000 ≤ n ∧ n < 0x8000_0000_0000_0000) :
    -0x8000_0000_0000_0000 ≤ n ∧ n < 0x1_0000_0000_0000_0000 :=
  ⟨h.1, by omega⟩

/-- The number, where a float that denotes an integer of 64 bits with sign is that integer. -/
def Number.reduce : Number → Number
  | .whole n h => .whole n h
  | .float f =>
      match f.toInt? with
      | none => .float f
      | some n =>
          if h : -0x8000_0000_0000_0000 ≤ n ∧ n < 0x8000_0000_0000_0000 then
            .whole n (whole_of_signed h)
          else .float f

theorem Number.normalize_eq_reduce (n : Number) : n.normalize = n.reduce := by
  cases n with
  | whole n h => rfl
  | float f =>
      rw [normalize, reduce, integral?]
      cases f.toInt? with
      | none => rfl
      | some n =>
          by_cases h : -0x8000_0000_0000_0000 ≤ n ∧ n < 0x8000_0000_0000_0000
          · have hfits := whole_of_signed h
            simp [Option.filter, h, ofInt?, hfits]
          · simp [Option.filter, h]

namespace Json

mutual

/-- The value with every number in it reduced. -/
def reduce : Json → Json
  | .number n => .number n.reduce
  | .array items => .array (reduceItems items)
  | .object members => .object (reduceMembers members)
  | .null => .null
  | .bool value => .bool value
  | .string value => .string value

def reduceItems : List Json → List Json
  | [] => []
  | item :: rest => item.reduce :: reduceItems rest

def reduceMembers : List (String × Json) → List (String × Json)
  | [] => []
  | (key, value) :: rest => (key, value.reduce) :: reduceMembers rest

end

theorem reduceMembers_eq (members : List (String × Json)) :
    reduceMembers members = Keyed.mapValues reduce members := by
  induction members with
  | nil => rfl
  | cons member rest ih =>
      obtain ⟨key, value⟩ := member
      rw [reduceMembers, ih]
      rfl

end Json

theorem Value.toJson_of_ofJson? {json : Json} {value : Value} (h : ofJson? json = some value) :
    value.toJson = json.reduce := by
  cases json with
  | null | array _ | object _ => cases h
  | bool b =>
      cases h
      rfl
  | string text =>
      cases h
      rfl
  | number n =>
      cases h
      rw [ofNumber, toJson, Number.normalize_eq_reduce, Json.reduce]

namespace Snapshot

theorem node_scalar {here : List Segment} {json : Json}
    (hscalar : ∀ members, json ≠ .object members) :
    node here json =
      match Value.ofJson? json with
      | some value => .ok (.leaf ⟨value, none⟩)
      | none => .error (.nonScalarLeaf (dotted here)) := by
  cases json with
  | object members => exact absurd rfl (hscalar members)
  | null | bool _ | number _ | string _ | array _ =>
      unfold node
      rfl

theorem node_object_eq_ok_iff {here : List Segment} {members : List (String × Json)}
    {result : Node} :
    node here (.object members) = .ok result ↔
      ∃ children, tree here members = .ok children ∧ .branch children = result := by
  rw [node]
  cases tree here members with
  | error error => simp [Except.map]
  | ok children => simp [Except.map]

theorem tree_cons_eq_ok_iff {here : List Segment} {key : String} {value : Json}
    {rest : List (String × Json)} {result : Tree} :
    tree here ((key, value) :: rest) = .ok result ↔
      ∃ step first others, step.text = key ∧ node (here ++ [step]) value = .ok first ∧
        tree here rest = .ok others ∧ Keyed.insert step first others = result := by
  rw [tree]
  cases hstep : Segment.ofText? key with
  | none =>
      constructor
      · intro h
        cases h
      · rintro ⟨step, _, _, htext, _⟩
        rw [Segment.ofText?_eq_some_iff.mpr htext] at hstep
        cases hstep
  | some step =>
      obtain rfl := Segment.ofText?_eq_some_iff.mp hstep
      simp only [bind_eq_ok_iff, Except.ok.injEq]
      constructor
      · rintro ⟨first, hfirst, others, hothers, hinsert⟩
        exact ⟨step, first, others, rfl, hfirst, hothers, hinsert⟩
      · rintro ⟨other, first, others, htext, hfirst, hothers, hinsert⟩
        obtain rfl := Segment.ext htext
        exact ⟨first, hfirst, others, hothers, hinsert⟩

theorem key_of_mem_tree {here : List Segment} {members : List (String × Json)} {result : Tree}
    (h : tree here members = .ok result) :
    ∀ entry ∈ result, ∃ member ∈ members, member.1 = entry.1.text := by
  induction members generalizing result with
  | nil =>
      cases h
      exact List.forall_mem_nil _
  | cons member rest ih =>
      obtain ⟨key, value⟩ := member
      obtain ⟨step, first, others, rfl, _, hothers, rfl⟩ := tree_cons_eq_ok_iff.mp h
      intro entry hmem
      rcases Keyed.mem_insert_imp hmem with rfl | hmem
      · exact ⟨_, List.mem_cons_self, rfl⟩
      · obtain ⟨member, hmember, hkey⟩ := ih hothers entry hmem
        exact ⟨member, List.mem_cons_of_mem _ hmember, hkey⟩

/-- The members of an object stand in key order, so the tree has their nodes one after another. -/
theorem exists_cons_of_tree {here : List Segment} {key : String} {value : Json}
    {rest : List (String × Json)} {result : Tree} (hkeys : Keyed.Ordered ((key, value) :: rest))
    (h : tree here ((key, value) :: rest) = .ok result) :
    ∃ step first others, step.text = key ∧ node (here ++ [step]) value = .ok first ∧
      tree here rest = .ok others ∧ (step, first) :: others = result := by
  obtain ⟨step, first, others, rfl, hfirst, hothers, rfl⟩ := tree_cons_eq_ok_iff.mp h
  refine ⟨step, first, others, rfl, hfirst, hothers, Eq.symm ?_⟩
  apply Keyed.insert_of_forall_lt
  intro entry hmem
  obtain ⟨member, hmember, hkey⟩ := key_of_mem_tree hothers entry hmem
  have hlt : step.text < member.1 := hkeys.head_lt member hmember
  rw [hkey] at hlt
  exact hlt

mutual

/-- What is loaded reads as it was written, with its numbers reduced. -/
theorem toJson_of_node {here : List Segment} {json : Json} {result : Node} (hordered : json.Ordered)
    (h : node here json = .ok result) : result.toJson = json.reduce := by
  cases json with
  | object members =>
      obtain ⟨children, htree, rfl⟩ := node_object_eq_ok_iff.mp h
      rw [Json.Ordered] at hordered
      rw [Node.toJson, Json.reduce, members_of_tree hordered.1 hordered.2 htree]
  | null | bool _ | number _ | string _ | array _ =>
      rw [node_scalar] at h
      · split at h
        next value hvalue =>
          cases h
          exact Value.toJson_of_ofJson? hvalue
        next => cases h
      · nofun

theorem members_of_tree {here : List Segment} {members : List (String × Json)} {result : Tree}
    (hkeys : Keyed.Ordered members) (hordered : Json.OrderedMembers members)
    (h : tree here members = .ok result) : Tree.members result = Json.reduceMembers members := by
  cases members with
  | nil =>
      cases h
      rfl
  | cons member rest =>
      obtain ⟨key, value⟩ := member
      obtain ⟨step, first, others, rfl, hfirst, hothers, rfl⟩ := exists_cons_of_tree hkeys h
      rw [Json.OrderedMembers] at hordered
      have hnode := toJson_of_node hordered.1 hfirst
      have hrest := members_of_tree hkeys.tail hordered.2 hothers
      rw [Tree.members, hnode, hrest, Json.reduceMembers]

end

mutual

/-- What is loaded has no versions. -/
theorem version_of_node {here : List Segment} {json : Json} {result : Node}
    (h : node here json = .ok result) (path : Path) :
    ∀ entry ∈ result.leaves path, entry.2.version = none := by
  cases json with
  | object members =>
      obtain ⟨children, htree, rfl⟩ := node_object_eq_ok_iff.mp h
      rw [Node.leaves]
      exact version_of_tree htree path.segments
  | null | bool _ | number _ | string _ | array _ =>
      rw [node_scalar] at h
      · split at h
        next value hvalue =>
          cases h
          exact List.forall_mem_singleton.mpr rfl
        next => cases h
      · nofun

theorem version_of_tree {here : List Segment} {members : List (String × Json)} {result : Tree}
    (h : tree here members = .ok result) (above : List Segment) :
    ∀ entry ∈ Tree.leaves above result, entry.2.version = none := by
  cases members with
  | nil =>
      cases h
      exact List.forall_mem_nil _
  | cons member rest =>
      obtain ⟨key, value⟩ := member
      obtain ⟨step, first, others, _, hfirst, hothers, rfl⟩ := tree_cons_eq_ok_iff.mp h
      have hrest := version_of_tree hothers above
      rintro ⟨path, held⟩ hmem
      obtain ⟨entry, hentry, hleaf⟩ := Tree.mem_leaves.mp hmem
      rcases Keyed.mem_insert_imp hentry with rfl | hentry
      · exact version_of_node hfirst _ _ hleaf
      · exact hrest _ (Tree.mem_leaves.mpr ⟨entry, hentry, hleaf⟩)

end

end Snapshot

/-- The leaf without its version. -/
def Leaf.unversioned (held : Leaf) : Leaf := ⟨held.value, none⟩

mutual

/-- The node without the versions of its leaves. -/
def Node.unversioned : Node → Node
  | .leaf held => .leaf held.unversioned
  | .branch children => .branch (Tree.unversioned children)

def Tree.unversioned : List (Segment × Node) → List (Segment × Node)
  | [] => []
  | (step, node) :: rest => (step, node.unversioned) :: Tree.unversioned rest

end

theorem Tree.unversioned_eq (tree : List (Segment × Node)) :
    Tree.unversioned tree = Keyed.mapValues Node.unversioned tree := by
  induction tree with
  | nil => rfl
  | cons entry rest ih =>
      obtain ⟨step, node⟩ := entry
      rw [Tree.unversioned, ih]
      rfl

mutual

theorem Node.toJson_unversioned (node : Node) : node.unversioned.toJson = node.toJson := by
  cases node with
  | leaf held => rfl
  | branch children =>
      rw [Node.unversioned, Node.toJson, Node.toJson, Tree.members_unversioned children]

theorem Tree.members_unversioned (tree : List (Segment × Node)) :
    Tree.members (Tree.unversioned tree) = Tree.members tree := by
  cases tree with
  | nil => rfl
  | cons entry rest =>
      obtain ⟨step, node⟩ := entry
      rw [Tree.unversioned, Tree.members, Tree.members, Node.toJson_unversioned node,
        Tree.members_unversioned rest]

end

mutual

theorem Node.leaves_unversioned (path : Path) (node : Node) :
    node.unversioned.leaves path = Keyed.mapValues Leaf.unversioned (node.leaves path) := by
  cases node with
  | leaf held => rfl
  | branch children => exact Tree.leaves_unversioned path.segments children

theorem Tree.leaves_unversioned (above : List Segment) (tree : List (Segment × Node)) :
    Tree.leaves above (Tree.unversioned tree) =
      Keyed.mapValues Leaf.unversioned (Tree.leaves above tree) := by
  cases tree with
  | nil => rfl
  | cons entry rest =>
      obtain ⟨step, node⟩ := entry
      rw [Tree.unversioned, Tree.leaves, Tree.leaves, Node.leaves_unversioned _ node,
        Tree.leaves_unversioned above rest]
      exact List.map_append.symm

end

namespace Snapshot

mutual

/-- What is read off a node loads into the node without versions. -/
theorem node_toJson {result : Node} (hordered : result.Ordered) (here : List Segment) :
    node here result.toJson = .ok result.unversioned := by
  cases result with
  | leaf held =>
      have hscalar : ∀ members, held.value.toJson ≠ .object members := by
        cases held.value <;> nofun
      rw [Node.toJson, node_scalar hscalar, Value.ofJson?_toJson]
      rfl
  | branch children =>
      rw [Node.toJson, node, tree_members hordered.children (fun _ hmem => hordered.child hmem)]
      rfl

theorem tree_members {result : List (Segment × Node)} (hkeys : Keyed.Ordered result)
    (hbelow : ∀ entry ∈ result, entry.2.Ordered) (here : List Segment) :
    tree here (Tree.members result) = .ok (Tree.unversioned result) := by
  cases result with
  | nil => rfl
  | cons entry rest =>
      obtain ⟨step, child⟩ := entry
      have hfirst := node_toJson (hbelow _ List.mem_cons_self) (here ++ [step])
      have hothers := tree_members hkeys.tail
        (fun entry hmem => hbelow entry (List.mem_cons_of_mem _ hmem)) here
      rw [Tree.members, tree_cons_eq_ok_iff]
      refine ⟨step, _, _, rfl, hfirst, hothers, ?_⟩
      rw [Tree.unversioned]
      apply Keyed.insert_of_forall_lt
      intro entry hmem
      rw [Tree.unversioned_eq] at hmem
      obtain ⟨original, horiginal, rfl⟩ := List.mem_map.mp hmem
      exact hkeys.head_lt original horiginal

end

end Snapshot

namespace Store

theorem ofSnapshot_eq_ok_iff {members : List (String × Json)} {store : Store} :
    ofSnapshot members = .ok store ↔ Snapshot.tree [] members = .ok store.tree := by
  obtain ⟨tree, hordered⟩ := store
  rw [ofSnapshot]
  split
  next loaded hloaded => simp [hloaded]
  next error herror => simp [herror]

theorem bulkLoad_of_ofSnapshot {members : List (String × Json)} {loaded : Store}
    (h : ofSnapshot members = .ok loaded) (store : Store) :
    store.bulkLoad members = (loaded, .ok loaded.leafCount) := by
  rw [bulkLoad, h]

theorem bulkLoad_eq_ok_iff {store : Store} {members : List (String × Json)} {count : Nat} :
    (store.bulkLoad members).2 = .ok count ↔
      ∃ loaded, ofSnapshot members = .ok loaded ∧ loaded.leafCount = count := by
  rw [bulkLoad]
  cases ofSnapshot members with
  | ok loaded => simp
  | error error => simp

theorem tree_eq_error_of_bulkLoad {store : Store} {members : List (String × Json)}
    {error : SnapshotError} (h : (store.bulkLoad members).2 = .error error) :
    Snapshot.tree [] members = .error error := by
  rw [bulkLoad, ofSnapshot] at h
  split at h
  next loaded hloaded => cases h
  next other hother =>
    cases h
    split at hother
    next tree htree => cases hother
    next fault hfault =>
      cases hother
      exact hfault

/-- The store without the versions of its leaves. -/
def unversioned (store : Store) : Store :=
  ⟨Tree.unversioned store.tree,
    Snapshot.ordered_tree
      (Snapshot.tree_members store.ordered.children (fun _ hmem => store.ordered.child hmem) [])⟩

theorem ofSnapshot_members (store : Store) :
    ofSnapshot (Tree.members store.tree) = .ok store.unversioned :=
  ofSnapshot_eq_ok_iff.mpr
    (Snapshot.tree_members store.ordered.children (fun _ hmem => store.ordered.child hmem) [])

theorem toJson_unversioned (store : Store) : store.unversioned.toJson = store.toJson :=
  congrArg Json.object (Tree.members_unversioned store.tree)

theorem leaves_unversioned (store : Store) :
    store.unversioned.leaves = Keyed.mapValues Leaf.unversioned store.leaves :=
  Tree.leaves_unversioned [] store.tree

theorem leafCount_eq (store : Store) : store.leafCount = store.leaves.length :=
  (Tree.length_leaves [] store.tree).symm

/-- Snapshots go round. One that is loaded, whatever the store held before, is read back with its
numbers reduced and has brought in no versions; and what is read off a store can be loaded anywhere,
and makes a store of the same values. -/
theorem snapshot_roundTrip :
    (∀ (store : Store) (members : List (String × Json)) (count : Nat),
      (Json.object members).Ordered → (store.bulkLoad members).2 = .ok count →
      (store.bulkLoad members).1.toJson = (Json.object members).reduce ∧
        (∀ other : Store, other.bulkLoad members = store.bulkLoad members) ∧
        ∀ entry ∈ (store.bulkLoad members).1.leaves, entry.2.version = none) ∧
    ∀ source store : Store, ∃ members, source.toJson = .object members ∧
      (store.bulkLoad members).2 = .ok source.leafCount ∧
      (store.bulkLoad members).1.toJson = source.toJson ∧
      Keyed.mapValues Leaf.value (store.bulkLoad members).1.leaves =
        Keyed.mapValues Leaf.value source.leaves := by
  constructor
  · intro store members count hordered hload
    obtain ⟨loaded, hloaded, rfl⟩ := bulkLoad_eq_ok_iff.mp hload
    have htree : Snapshot.tree [] members = .ok loaded.tree := ofSnapshot_eq_ok_iff.mp hloaded
    rw [Json.Ordered] at hordered
    rw [bulkLoad_of_ofSnapshot hloaded]
    refine ⟨?_, fun other => bulkLoad_of_ofSnapshot hloaded other, ?_⟩
    · exact congrArg Json.object (Snapshot.members_of_tree hordered.1 hordered.2 htree)
    · exact Snapshot.version_of_tree htree []
  · intro source store
    have hcount : source.unversioned.leafCount = source.leafCount := by
      rw [leafCount_eq, leafCount_eq, leaves_unversioned, Keyed.mapValues, List.length_map]
    refine ⟨Tree.members source.tree, rfl, ?_⟩
    rw [bulkLoad_of_ofSnapshot source.ofSnapshot_members]
    refine ⟨congrArg Except.ok hcount, source.toJson_unversioned, ?_⟩
    rw [leaves_unversioned, Keyed.mapValues, Keyed.mapValues, List.map_map]
    rfl

/-- A snapshot with the float `1.0` and an empty object. -/
def lampSnapshot : List (String × Json) :=
  [("lamp", .object [("dim", .number (.float ⟨false, ⟨1023, by decide⟩, ⟨0, by decide⟩⟩)),
    ("on", .object [])])]

theorem snapshot_roundTrip_lamp :
    (Json.object lampSnapshot).Ordered ∧ (Store.empty.bulkLoad lampSnapshot).2 = .ok 1 ∧
      (Store.empty.bulkLoad lampSnapshot).1.toJson =
        .object [("lamp", .object [("dim", .number (.ofUInt64 1)), ("on", .object [])])] := by
  have hordered : (Json.object lampSnapshot).Ordered := by
    simp only [lampSnapshot, Json.Ordered, Json.OrderedMembers, Keyed.Ordered,
      List.pairwise_singleton, List.pairwise_pair]
    decide
  have hload : (Store.empty.bulkLoad lampSnapshot).2 = .ok 1 := rfl
  refine ⟨hordered, hload, ?_⟩
  rw [(snapshot_roundTrip.1 .empty lampSnapshot 1 hordered hload).1]
  decide +kernel

end Store

end PropertyTree
