import PropertyTree.Proofs.Session.Conformance
import PropertyTree.Proofs.Session.Relay
import PropertyTree.Proofs.Store.Faults
import PropertyTree.Proofs.Store.LeafOrder

/-! # Which snapshots a session loads

A session loads the snapshots whose members are sound and, if it checks them, whose leaves fit its
schema. The new contents are staged before anything else happens, so a load that fails changes
nothing. The error is the first fault of a member, or else what is wrong with the least leaf that
does not fit.
-/

namespace PropertyTree

/-- The least leaf of the snapshot, in path order, that does not fit the schema has this error. -/
def Snapshot.LeastMisfit (schema : Schema) (members : List (String × Json))
    (error : SnapshotError) : Prop :=
  ∃ path value, LeafAt members path value ∧ schema.misfit? path value = some error ∧
    ∀ other held, LeafAt members other held → other < path → schema.Fits other held

namespace Session

variable {session : Session} {members : List (String × Json)} {staged : Store}

theorem checkLeaves_ofSnapshot_eq_ok_iff (hordered : (Json.object members).Ordered)
    (hload : Store.ofSnapshot members = .ok staged) {schema : Schema} :
    checkLeaves schema staged.leaves = .ok () ↔
      ∀ path value, Snapshot.LeafAt members path value → schema.Fits path value := by
  rw [checkLeaves_eq_ok_iff]
  simp only [← Store.exists_mem_leaves_ofSnapshot_iff hordered hload]
  constructor
  · rintro hfits _ _ ⟨entry, hmem, rfl, rfl⟩
    exact hfits entry hmem
  · intro hfits entry hmem
    exact hfits _ _ ⟨entry, hmem, rfl, rfl⟩

theorem checkLeaves_ofSnapshot_eq_error_iff (hordered : (Json.object members).Ordered)
    (hload : Store.ofSnapshot members = .ok staged) {schema : Schema} {error : SnapshotError} :
    checkLeaves schema staged.leaves = .error error ↔
      Snapshot.LeastMisfit schema members error := by
  rw [← failure?_eq_some_iff, failure?_checkLeaves,
    findSome?_eq_some_iff_of_pairwise (fun _ _ => KeyOrder.lt_asymm) staged.ordered_leaves]
  simp only [Snapshot.LeastMisfit, ← Store.exists_mem_leaves_ofSnapshot_iff hordered hload,
    Schema.misfit?_eq_none_iff]
  constructor
  · rintro ⟨entry, hmem, hmisfit, hleast⟩
    refine ⟨_, _, ⟨entry, hmem, rfl, rfl⟩, hmisfit, ?_⟩
    rintro _ _ ⟨other, hother, rfl, rfl⟩
    exact hleast other hother
  · rintro ⟨_, _, ⟨entry, hmem, rfl, rfl⟩, hmisfit, hleast⟩
    exact ⟨entry, hmem, hmisfit, fun other hother => hleast _ _ ⟨other, hother, rfl, rfl⟩⟩

theorem result_bulkLoad_eq_error_iff {error : SnapshotError} :
    (session.bulkLoad members).result = .error error ↔
      Store.ofSnapshot members = .error error ∨
        ∃ staged, Store.ofSnapshot members = .ok staged ∧ session.validateSnapshot = true ∧
          checkLeaves session.schema staged.leaves = .error error := by
  rw [bulkLoad_eq]
  cases Store.ofSnapshot members with
  | error fault => simp
  | ok staged =>
      simp only [← checkStaged_eq_error_iff, reduceCtorEq, false_or, Except.ok.injEq,
        exists_eq_left']
      cases session.checkStaged staged <;> simp

theorem exists_result_bulkLoad_iff (hordered : (Json.object members).Ordered) :
    (∃ count, (session.bulkLoad members).result = .ok count) ↔
      Snapshot.Sound members ∧ (session.validateSnapshot = true →
        ∀ path value, Snapshot.LeafAt members path value → session.schema.Fits path value) := by
  rw [← Store.exists_ofSnapshot_iff]
  constructor
  · rintro ⟨count, hload⟩
    obtain ⟨staged, hstaged, hcheck, _⟩ := bulkLoad_of_ok hload
    refine ⟨⟨staged, hstaged⟩, fun hvalidate => ?_⟩
    exact (checkLeaves_ofSnapshot_eq_ok_iff hordered hstaged).mp (hcheck hvalidate)
  · rintro ⟨⟨staged, hstaged⟩, hfits⟩
    have hcheck : session.checkStaged staged = .ok () := checkStaged_eq_ok_iff.mpr fun hvalidate =>
      (checkLeaves_ofSnapshot_eq_ok_iff hordered hstaged).mpr (hfits hvalidate)
    refine ⟨staged.leafCount, ?_⟩
    rw [bulkLoad_eq, hstaged]
    simp only [hcheck]

/-- The new contents are the snapshot's, whatever session loads it. -/
theorem eq_of_bulkLoad {other : Session} {count countOther : Nat}
    (hload : (session.bulkLoad members).result = .ok count)
    (hother : (other.bulkLoad members).result = .ok countOther) :
    (other.bulkLoad members).session.store = (session.bulkLoad members).session.store ∧
      countOther = count := by
  obtain ⟨staged, hstaged, _, hsession, rfl⟩ := bulkLoad_of_ok hload
  obtain ⟨stagedOther, hstagedOther, _, hsessionOther, rfl⟩ := bulkLoad_of_ok hother
  rw [hstaged] at hstagedOther
  cases hstagedOther
  rw [hsession, hsessionOther]
  exact ⟨rfl, rfl⟩

theorem result_bulkLoad_eq_error_iff_fault (hordered : (Json.object members).Ordered)
    {error : SnapshotError} :
    (session.bulkLoad members).result = .error error ↔
      Snapshot.FirstFault members error ∨
        Snapshot.Sound members ∧ session.validateSnapshot = true ∧
          Snapshot.LeastMisfit session.schema members error := by
  rw [result_bulkLoad_eq_error_iff, Store.ofSnapshot_eq_error_iff, ← Store.exists_ofSnapshot_iff]
  refine or_congr_right ?_
  constructor
  · rintro ⟨staged, hload, hvalidate, hcheck⟩
    exact ⟨⟨staged, hload⟩, hvalidate,
      (checkLeaves_ofSnapshot_eq_error_iff hordered hload).mp hcheck⟩
  · rintro ⟨⟨staged, hload⟩, hvalidate, hmisfit⟩
    exact ⟨staged, hload, hvalidate,
      (checkLeaves_ofSnapshot_eq_error_iff hordered hload).mpr hmisfit⟩

theorem trace_bulkLoad (session : Session) (members : List (String × Json)) :
    (session.bulkLoad members).trace = [] := by
  rcases session.bulkLoad_cases members with ⟨_, hload⟩ | ⟨_, _, _, hload⟩ <;> rw [hload]

/-- A session loads just the snapshots whose members are sound and, if it checks them, whose leaves
all fit. The store then holds the leaves of the snapshot, counted by the result, and is the same for
every session; nothing else changes. A load that fails changes nothing at all; its error is the
first fault of a member or else that of the least leaf that does not fit. Nobody is told either
way. -/
theorem loading_is_all_or_nothing (session : Session) {members : List (String × Json)}
    (hordered : (Json.object members).Ordered) :
    let load := session.bulkLoad members
    ((∃ count, load.result = .ok count) ↔
      Snapshot.Sound members ∧ (session.validateSnapshot = true →
        ∀ path value, Snapshot.LeafAt members path value → session.schema.Fits path value)) ∧
    (∀ count, load.result = .ok count →
      load.session = { session with store := load.session.store } ∧
      (∀ path value,
        load.session.store.get? path = some value ↔ Snapshot.LeafAt members path value) ∧
      count = load.session.store.leaves.length ∧
      count = (Snapshot.listing [] members).countP (·.value.isScalar) ∧
      ∀ other countOther, (bulkLoad other members).result = .ok countOther →
        (bulkLoad other members).session.store = load.session.store ∧ countOther = count) ∧
    (∀ error, load.result = .error error → load.session = session) ∧
    (∀ error, load.result = .error error ↔
      Snapshot.FirstFault members error ∨
        Snapshot.Sound members ∧ session.validateSnapshot = true ∧
          Snapshot.LeastMisfit session.schema members error) ∧
    load.trace = [] := by
  intro load
  refine ⟨exists_result_bulkLoad_iff hordered, ?_, fun _ => session_bulkLoad_of_error,
    fun _ => result_bulkLoad_eq_error_iff_fault hordered, session.trace_bulkLoad members⟩
  intro count hload
  obtain ⟨staged, hstaged, _, hsession, hcount⟩ := bulkLoad_of_ok hload
  have hstore : load.session.store = staged := congrArg store hsession
  rw [hstore]
  exact ⟨hsession, fun _ _ => Store.get?_ofSnapshot_eq_some_iff hordered hstaged,
    hcount.symm.trans staged.leafCount_eq,
    hcount.symm.trans (Store.leafCount_ofSnapshot hordered hstaged),
    fun _ _ hother => hstore ▸ eq_of_bulkLoad hload hother⟩

/-- A snapshot with two faults. -/
def faultySnapshot : List (String × Json) :=
  [("lamp", .object [("dim", .null), ("on.off", .bool true)])]

theorem loading_is_all_or_nothing_lamp :
    let session (checking : Bool) := Session.new .dimmer ⟨false⟩ checking
    (Json.object Store.lampSnapshot).Ordered ∧ Snapshot.Sound Store.lampSnapshot ∧
      (Json.object faultySnapshot).Ordered ∧
      Snapshot.FirstFault faultySnapshot (.nonScalarLeaf "lamp.dim") ∧
      ((session true).bulkLoad faultySnapshot).session = session true := by
  intro session
  have hlamp : (Json.object Store.lampSnapshot).Ordered := by
    simp only [Store.lampSnapshot, Json.Ordered, Json.OrderedMembers, Keyed.Ordered,
      List.pairwise_singleton, List.pairwise_pair]
    decide
  have hfaulty : (Json.object faultySnapshot).Ordered := by
    simp only [faultySnapshot, Json.Ordered, Json.OrderedMembers, Keyed.Ordered,
      List.pairwise_singleton, List.pairwise_pair]
    decide
  have hloads := (loading_is_all_or_nothing (session true) hlamp).1.mp ⟨_, rfl⟩
  have hfails := (loading_is_all_or_nothing (session false) hfaulty).2.2.2.1
    (.nonScalarLeaf "lamp.dim")
  have hfault := (hfails.mp rfl).resolve_right fun h => Bool.false_ne_true h.2.1
  have hkept := (loading_is_all_or_nothing (session true) hfaulty).2.2.1
    (.nonScalarLeaf "lamp.dim") rfl
  exact ⟨hlamp, hloads.1, hfaulty, hfault, hkept⟩

end Session

end PropertyTree
