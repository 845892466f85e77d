import PropertyTree.Proofs.Session.Loading
import PropertyTree.Proofs.Session.Relay
import PropertyTree.Proofs.Store.Marker

/-! # Leaves without a version

In a session that refuses sets without a version, whatever it is fed with, the leaves without one
are those of the last snapshot that have been left alone since.
-/

namespace PropertyTree

namespace Session

section Depth

variable (depth : Nat)

/-- No load among the operations succeeds. -/
def LoadsNothing (session : Session) : List Operation → Prop
  | [] => True
  | operation :: rest =>
      session.loaded? operation = none ∧ LoadsNothing (session.perform depth operation).session rest

theorem loadsNothing_append {session : Session} {front back : List Operation} :
    session.LoadsNothing depth (front ++ back) ↔
      session.LoadsNothing depth front ∧
        (session.performAll depth front).session.LoadsNothing depth back := by
  induction front generalizing session with
  | nil => exact ⟨fun h => ⟨trivial, h⟩, And.right⟩
  | cons operation rest ih =>
      rw [List.cons_append, LoadsNothing, LoadsNothing, ih, and_assoc]
      rfl

/-- What every event does to the store, a run does that loads nothing. -/
theorem performAll_of_runLaw {session : Session}
    {does : Store → List (Except Failure Outcome) → Store → Prop}
    (law : RunLaw session.options session.schema does) {operations : List Operation}
    (h : session.LoadsNothing depth operations) :
    does session.store (session.performAll depth operations).result
      (session.performAll depth operations).session.store := by
  induction operations generalizing session with
  | nil => exact law.nil session.store
  | cons operation rest ih =>
      have halike := session.alike_perform depth operation
      refine law.append (perform_of_runLaw depth law h.1) (ih ?_ h.2)
      rw [halike.schema, halike.options]
      exact law

/-- The last load of a run that succeeds, with the session after it and the operations since. -/
structure LastLoad (session : Session) (operations : List Operation)
    (members : List (String × Json)) (loaded : Session) (since : List Operation) : Prop where
  split : ∃ front, operations = front ++ .load members :: since ∧
    let load := (session.performAll depth front).session.bulkLoad members
    (∃ count, load.result = .ok count) ∧ load.session = loaded
  last : loaded.LoadsNothing depth since

theorem loaded?_load_eq_none_iff {session : Session} {members : List (String × Json)} :
    session.loaded? (.load members) = none ↔
      ¬ ∃ count, (session.bulkLoad members).result = .ok count := by
  rw [loaded?]
  cases (session.bulkLoad members).result <;> simp

theorem loadsNothing_or_lastLoad (session : Session) (operations : List Operation) :
    session.LoadsNothing depth operations ∨
      ∃ members loaded since, session.LastLoad depth operations members loaded since := by
  induction operations generalizing session with
  | nil => exact Or.inl trivial
  | cons operation rest ih =>
      -- If nothing is loaded after the operation, the last load is the operation itself or none.
      rcases ih (session.perform depth operation).session with
        hrest | ⟨members, loaded, since, ⟨front, rfl, hload⟩, hlast⟩
      · by_cases hloaded : session.loaded? operation = none
        · exact Or.inl ⟨hloaded, hrest⟩
        · cases operation with
          | load members =>
              rw [loaded?_load_eq_none_iff, not_not] at hloaded
              exact Or.inr ⟨members, _, rest, ⟨[], rfl, hloaded, rfl⟩, hrest⟩
          | apply _ | applyWire _ | applyBatch _ | applyDocument _ => exact absurd rfl hloaded
      · exact Or.inr ⟨members, loaded, since, ⟨operation :: front, rfl, hload⟩, hlast⟩

namespace LastLoad

variable {depth} {session loaded : Session} {operations since : List Operation}
  {members : List (String × Json)}

theorem mem (h : session.LastLoad depth operations members loaded since) :
    .load members ∈ operations := by
  obtain ⟨front, rfl, _⟩ := h.split
  exact List.mem_append_right _ (List.mem_cons_self ..)

theorem alike (h : session.LastLoad depth operations members loaded since) :
    Alike loaded session := by
  obtain ⟨front, rfl, _, rfl⟩ := h.split
  exact (alike_bulkLoad _ members).trans (session.alike_performAll depth front)

/-- What a run ends with is what the operations since the last load make of it. -/
theorem session_performAll (h : session.LastLoad depth operations members loaded since) :
    (session.performAll depth operations).session =
      (loaded.performAll depth since).session := by
  obtain ⟨front, rfl, _, rfl⟩ := h.split
  rw [performAll_append]
  rfl

end LastLoad

/-- The path has this leaf all along a run, and no change of it is reported. -/
structure Keeps (session : Session) (path : Path) (leaf : Leaf) (operations : List Operation) :
    Prop where
  leaf : ∀ front back, operations = front ++ back →
    (session.performAll depth front).session.store.leaf? path = some leaf
  changes : Report.changesAt path (session.performAll depth operations).result = []

variable {depth} {session : Session}

theorem guarded_performAll (hreject : session.options.rejectUnversioned = true) (path : Path)
    {operations : List Operation} (h : session.LoadsNothing depth operations) :
    Guarded path (session.store.leaf? path) (session.performAll depth operations).result
      ((session.performAll depth operations).session.store.leaf? path) :=
  performAll_of_runLaw depth (Store.guarded_law hreject session.schema path) h

/-- A leaf without a version has been there since the last load. -/
theorem keeps_of_unversioned (hreject : session.options.rejectUnversioned = true) {path : Path}
    {operations : List Operation} (h : session.LoadsNothing depth operations) {value : Value}
    (hleaf : (session.performAll depth operations).session.store.leaf? path =
      some ⟨value, none⟩) :
    session.Keeps depth path ⟨value, none⟩ operations := by
  constructor
  · rintro front back rfl
    obtain ⟨_, hback⟩ := (loadsNothing_append depth).mp h
    have hoptions := (session.alike_performAll depth front).options
    rw [performAll_append] at hleaf
    exact ((guarded_performAll (hoptions ▸ hreject) path hback).untouched value hleaf).1
  · exact ((guarded_performAll hreject path h).untouched value hleaf).2

/-- In a session that refuses sets without a version, every leaf without one has its value from the
last snapshot that was loaded, and has been neither changed nor deleted since. A version that a leaf
has at some time is not lost and does not go down, as long as the leaf is not deleted and nothing is
loaded. -/
theorem unversioned_only_from_snapshot (depth : Nat) (hempty : session.store = .empty)
    (hreject : session.options.rejectUnversioned = true) {operations : List Operation}
    (hordered : ∀ members, .load members ∈ operations → (Json.object members).Ordered) :
    (∀ path value,
      (session.performAll depth operations).session.store.leaf? path = some ⟨value, none⟩ →
      ∃ members loaded since, session.LastLoad depth operations members loaded since ∧
        Snapshot.LeafAt members path value ∧ loaded.Keeps depth path ⟨value, none⟩ since) ∧
    ∀ front back path n, operations = front ++ back →
      let middle := (session.performAll depth front).session
      middle.LoadsNothing depth back → middle.store.version? path = some n →
      Report.NoneDeleted path (middle.performAll depth back).result →
      ∃ m, (session.performAll depth operations).session.store.version? path = some m ∧
        n ≤ m := by
  constructor
  · intro path value hleaf
    rcases session.loadsNothing_or_lastLoad depth operations with
      hnothing | ⟨members, loaded, since, hlast⟩
    · -- The leaf would have been there from the start, in the empty store.
      have hkeeps := keeps_of_unversioned hreject hnothing hleaf
      have hstart : session.store.leaf? path = some ⟨value, none⟩ := hkeeps.leaf [] _ rfl
      rw [hempty] at hstart
      exact absurd (Store.leaf?_eq_some_iff.mp hstart) (Store.layout_empty_ne_leaf path _)
    · rw [hlast.session_performAll] at hleaf
      have hkeeps := keeps_of_unversioned (hlast.alike.options ▸ hreject) hlast.last hleaf
      refine ⟨members, loaded, since, hlast, ?_, hkeeps⟩
      have hloaded : loaded.store.leaf? path = some ⟨value, none⟩ := hkeeps.leaf [] _ rfl
      obtain ⟨front, _, ⟨count, hload⟩, rfl⟩ := hlast.split
      obtain ⟨staged, hstaged, _, hsession, _⟩ := bulkLoad_of_ok hload
      rw [hsession] at hloaded
      rw [← Store.get?_ofSnapshot_eq_some_iff (hordered members hlast.mem) hstaged, Store.get?]
      exact congrArg (Option.map Leaf.value) hloaded
  · rintro front back path n rfl
    intro middle hnothing hversion hdeleted
    have hoptions := (session.alike_performAll depth front).options
    rw [performAll_append]
    exact (guarded_performAll (hoptions ▸ hreject) path hnothing).kept n hversion hdeleted

end Depth

/-- A snapshot of two lamps that are off. -/
def lampsOff : List (String × Json) :=
  [("lamp", .object [("dim", .bool false), ("on", .bool false)])]

/-- The snapshot is loaded, a set without a version is refused and one with a version is not. -/
def lampStart : List Operation :=
  [.load lampsOff, .apply (.set .lampDim (.bool true) none),
    .applyWire (.set "lamp.on" (some (.bool true)) (some ⟨7⟩))]

/-- A set with a lower version is stale, and one with a greater version leaves the value. -/
def lampBatch : List Operation :=
  [.applyBatch [.set "lamp.on" (some (.bool false)) (some ⟨3⟩),
    .set "lamp.on" (some (.bool true)) (some ⟨9⟩)]]

theorem unversioned_only_from_snapshot_lamp :
    let session := new .lamp ⟨true⟩ false
    let final := (session.performAll 0 (lampStart ++ lampBatch)).session
    session.options.rejectUnversioned = true ∧
      final.store.leaf? .lampDim = some ⟨.bool false, none⟩ ∧
      (∃ members loaded since, session.LastLoad 0 (lampStart ++ lampBatch) members loaded since ∧
        Snapshot.LeafAt members .lampDim (.bool false) ∧
        loaded.Keeps 0 .lampDim ⟨.bool false, none⟩ since) ∧
      (session.performAll 0 lampStart).session.store.version? .lampOn = some ⟨7⟩ ∧
      ∃ m, final.store.version? .lampOn = some m ∧ ⟨7⟩ ≤ m := by
  intro session final
  have hordered : ∀ members, .load members ∈ lampStart ++ lampBatch →
      (Json.object members).Ordered := by
    intro members hmem
    simp only [lampStart, lampBatch, List.cons_append, List.nil_append, List.mem_cons,
      Operation.load.injEq, reduceCtorEq, or_false, List.not_mem_nil] at hmem
    subst hmem
    simp only [lampsOff, Json.Ordered, Json.OrderedMembers, Keyed.Ordered,
      List.pairwise_singleton, List.pairwise_pair]
    decide
  have hempty : session.store = .empty := rfl
  have hreject : session.options.rejectUnversioned = true := rfl
  obtain ⟨hunversioned, hversioned⟩ :=
    unversioned_only_from_snapshot 0 hempty hreject hordered
  have hdim : final.store.leaf? .lampDim = some ⟨.bool false, none⟩ := by decide +kernel
  have hon : (session.performAll 0 lampStart).session.store.version? .lampOn = some ⟨7⟩ := by
    decide +kernel
  refine ⟨hreject, hdim, hunversioned .lampDim _ hdim, hon, ?_⟩
  refine hversioned lampStart lampBatch .lampOn ⟨7⟩ rfl ⟨rfl, trivial⟩ hon ?_
  have hresults : Report.changesAt .lampOn
      ((session.performAll 0 lampStart).session.performAll 0 lampBatch).result = [] := by
    decide +kernel
  rw [Report.NoneDeleted, hresults]
  exact List.forall_mem_nil _

end Session

end PropertyTree
