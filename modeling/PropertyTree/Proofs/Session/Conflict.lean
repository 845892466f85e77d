import PropertyTree.Proofs.Schema.PrefixFree
import PropertyTree.Proofs.Session.Run
import PropertyTree.Proofs.Store.Independence
import PropertyTree.Proofs.Store.Leaves

/-! # Conflicts in a session that checks its snapshots

The check of a snapshot concerns its leaves. It keeps leaves away from the paths that are not
declared, but an object without any value may stand where a property belongs, and there a write
still fails. This is the only conflict left: events themselves put leaves at declared paths and
branches above them, so under a prefix-free schema they are never in each other's way.
-/

namespace PropertyTree

/-- The error tells of a node in the way of a leaf. -/
def WriteError.IsConflict : WriteError → Prop
  | .pathConflict _ _ | .branchConflict _ _ => True
  | .unversionedWrite _ => False

/-- The checks without a store find no conflicts. -/
theorem Event.not_isConflict_of_check {options : Options} {schema : Schema} {event : Event}
    {error : WriteError} (h : event.check options schema = .error (.write error)) :
    ¬ error.IsConflict := by
  cases event with
  | set path value version =>
      rw [check] at h
      rcases bind_eq_error_iff.mp h with hschema | ⟨_, _, hversion⟩
      · obtain ⟨_, _, hwrite⟩ := mapError_eq_error_iff.mp hschema
        cases hwrite
      · split at hversion
        next =>
          cases hversion
          exact id
        next => cases hversion
  | delete path =>
      rw [check] at h
      rcases bind_eq_error_iff.mp h with hschema | ⟨_, _, hok⟩
      · obtain ⟨_, _, hwrite⟩ := mapError_eq_error_iff.mp hschema
        cases hwrite
      · cases hok

namespace Store

/-- The path ends at a branch without any leaf. -/
def IsHollow (store : Store) (path : Path) : Prop :=
  ∃ children, store.node? path = some (.branch children) ∧ Tree.leafCount children = 0

/-- All leaves are at declared paths, and a branch at one was loaded without any leaf. -/
structure Fits (schema : Schema) (store loaded : Store) : Prop where
  leaves : ∀ path held, store.layout path = .leaf held → schema.declares path = true
  branches : ∀ path, schema.declares path = true → store.layout path = .branch →
    loaded.IsHollow path

variable {schema : Schema} {loaded store : Store} {path : Path}

/-- No leaf lies above or below a declared path. -/
theorem not_leaf_of_isAbove (hfree : schema.PrefixFree)
    (hleaves : ∀ path held, store.layout path = .leaf held → schema.declares path = true)
    (hdeclared : schema.declares path = true) {other : Path}
    (habove : path.isAbove other = true ∨ other.isAbove path = true) (held : Leaf) :
    store.layout other ≠ .leaf held := by
  intro hleaf
  have hother : other ∈ schema.keys := Schema.declares_iff_mem_keys.mp (hleaves other held hleaf)
  have hpath : path ∈ schema.keys := Schema.declares_iff_mem_keys.mp hdeclared
  rcases habove with habove | habove
  · rw [hfree path hpath other hother] at habove
    cases habove
  · rw [hfree other hother path hpath] at habove
    cases habove

/-- Under a prefix-free schema, a branch at a declared path has no leaf. -/
theorem leafCount_of_declares (hfree : schema.PrefixFree)
    (hleaves : ∀ path held, store.layout path = .leaf held → schema.declares path = true)
    (hdeclared : schema.declares path = true) {children : Tree}
    (hnode : store.node? path = some (.branch children)) : Tree.leafCount children = 0 := by
  apply leafCount_eq_zero hnode
  intro beyond hbeyond held
  by_cases hself : path = beyond
  · subst hself
    rw [layout_eq_ofNode?, hnode]
    intro hleaf
    cases hleaf
  · exact not_leaf_of_isAbove hfree hleaves hdeclared
      (Or.inl (Path.isAbove_iff.mpr ⟨hbeyond, hself⟩)) held

theorem isHollow_of_declares (hfree : schema.PrefixFree)
    (hleaves : ∀ path held, store.layout path = .leaf held → schema.declares path = true)
    (hdeclared : schema.declares path = true) (hbranch : store.layout path = .branch) :
    store.IsHollow path := by
  rw [layout_eq_ofNode?] at hbranch
  cases hnode : store.node? path with
  | none =>
      rw [hnode] at hbranch
      cases hbranch
  | some node =>
      cases node with
      | leaf held =>
          rw [hnode] at hbranch
          cases hbranch
      | branch children =>
          exact ⟨children, hnode, leafCount_of_declares hfree hleaves hdeclared hnode⟩

namespace Fits

/-- A store whose leaves are declared fits as soon as it is loaded. -/
theorem self (hfree : schema.PrefixFree)
    (hleaves : ∀ path held, store.layout path = .leaf held → schema.declares path = true) :
    store.Fits schema store :=
  ⟨hleaves, fun _ => isHollow_of_declares hfree hleaves⟩

/-- Events keep branches away from declared paths, and leaves at them. -/
theorem next {options : Options} (hfits : store.Fits schema loaded) (hfree : schema.PrefixFree)
    (event : Event) : (store.next options schema event).Fits schema loaded := by
  cases hdeclared : schema.declares event.path with
  | false => rwa [next_of_not_declares hdeclared]
  | true =>
      rcases store.next_cases options schema event with hsame | ⟨held, _, hlayout⟩
      · rwa [hsame]
      · constructor
        · intro path leaf hleaf
          by_cases hself : path = event.path
          · rwa [hself]
          · rw [hlayout, Layout.assign_eq_leaf_iff hself] at hleaf
            exact hfits.leaves path leaf hleaf.2
        · intro path hpath hbranch
          rw [hlayout] at hbranch
          by_cases hleads : path.LeadsTo event.path
          · by_cases hself : path = event.path
            · subst hself
              rw [Layout.assign_self] at hbranch
              cases hadvance : event.advance options schema held with
              | none => rw [hadvance] at hbranch; cases hbranch
              | some leaf => rw [hadvance] at hbranch; cases hbranch
            · -- A branch made for the event lies above a declared path, so it is at none.
              have habove := hfree path (Schema.declares_iff_mem_keys.mp hpath) event.path
                (Schema.declares_iff_mem_keys.mp hdeclared)
              rw [Path.isAbove_iff.mpr ⟨hleads, hself⟩] at habove
              cases habove
          · rw [Layout.assign_of_not_leadsTo hleads] at hbranch
            exact hfits.branches path hpath hbranch

/-- A conflict is with a branch that was loaded without any leaf. -/
theorem conflict {options : Options} (hfits : store.Fits schema loaded)
    (hfree : schema.PrefixFree) {event : Event} {error : WriteError}
    (hanswer : store.answer options schema event = .error (.write error))
    (hconflict : error.IsConflict) :
    ∃ path : Path, error = .branchConflict path.dotted 0 ∧ schema.declares path = true ∧
      loaded.IsHollow path := by
  rw [answer_eq, Slot.answer] at hanswer
  rcases bind_eq_error_iff.mp hanswer with hcheck | ⟨_, hcheck, hreply⟩
  · exact absurd hconflict (Event.not_isConflict_of_check hcheck)
  · have hdeclared : schema.declares event.path = true := by
      cases hdeclared : schema.declares event.path with
      | true => rfl
      | false =>
          rw [check_of_not_declares hdeclared] at hcheck
          cases hcheck
    cases hslot : store.slot event.path with
    | free held =>
        rw [hslot] at hreply
        cases hreply
    | blocked blocking =>
        obtain ⟨habove, held, hleaf⟩ :=
          blocker?_eq_some_iff.mp (slot_eq_blocked_iff.mp hslot)
        exact absurd hleaf
          (not_leaf_of_isAbove hfree hfits.leaves hdeclared (Or.inr habove) held)
    | branch leaves =>
        obtain ⟨children, hnode, hcount, _⟩ := node?_of_slot_branch hslot
        rw [leafCount_of_declares hfree hfits.leaves hdeclared hnode] at hcount
        have hbranch : store.layout event.path = .branch := by
          rw [layout_eq_ofNode?, hnode]
          rfl
        refine ⟨event.path, ?_, hdeclared, hfits.branches event.path hdeclared hbranch⟩
        rw [hslot, ← hcount] at hreply
        cases event with
        | set path value version =>
            cases hreply
            rfl
        | delete path => cases hreply

end Fits

end Store

namespace Session

/-- What a checking session loads fits its schema. -/
theorem fits_of_loaded? {session : Session} (hfree : session.schema.PrefixFree)
    (hvalidate : session.validateSnapshot = true) {operation : Operation} {contents : Store}
    (hloaded : session.loaded? operation = some contents) :
    contents.Fits session.schema contents := by
  cases operation with
  | load members =>
      obtain ⟨_, hcheck⟩ := ofSnapshot_of_loaded? hloaded
      apply Store.Fits.self hfree
      intro path held hleaf
      have hmem := Store.mem_leaves_iff.mpr hleaf
      exact (checkLeaves_eq_ok_iff.mp (hcheck hvalidate) (path, held) hmem).declares
  | apply _ | applyWire _ | applyBatch _ | applyDocument _ => cases hloaded

theorem conflict_law {schema : Schema} (options : Options) (hfree : schema.PrefixFree)
    (loaded : Store) :
    EventLaw options schema (fun store => store.Fits schema loaded) fun result =>
      ∀ error : WriteError, result = .error (.write error) → error.IsConflict →
        ∃ path : Path, error = .branchConflict path.dotted 0 ∧ schema.declares path = true ∧
          loaded.IsHollow path where
  next _ event hfits := hfits.next hfree event
  answer _ _ hfits _ hanswer hconflict := hfits.conflict hfree hanswer hconflict
  misreading failure hmisreading error herror := by
    cases herror
    exact hmisreading.elim

/-- On the way from a session, the store fits what the last snapshot brought in. -/
structure Progress.Fitting (origin : Session) (progress : Progress) : Prop where
  alike : Alike progress.session origin
  fits : progress.session.store.Fits origin.schema progress.loaded

theorem Progress.Fitting.next {origin : Session} (hfree : origin.schema.PrefixFree)
    (hvalidate : origin.validateSnapshot = true) {progress : Progress}
    (h : progress.Fitting origin) (depth : Nat) (operation : Operation) :
    (progress.next depth operation).Fitting origin := by
  obtain ⟨halike, hfits⟩ := h
  have hlaw := conflict_law progress.session.options hfree progress.loaded
  refine ⟨(progress.session.alike_perform depth operation).trans halike, ?_⟩
  rw [← halike.schema] at hfree hfits hlaw ⊢
  rw [Progress.next]
  cases hloaded : progress.session.loaded? operation with
  | none => exact (perform_of_law depth hlaw hfits operation).1 hloaded
  | some contents =>
      rw [← halike.validateSnapshot] at hvalidate
      simp only [store_perform_of_loaded? depth hloaded, Option.getD_some]
      exact fits_of_loaded? hfree hvalidate hloaded

theorem fitting_start_of_ofConfig {config : Config} {session : Session}
    (hsession : ofConfig config = .ok session) :
    session.schema.PrefixFree ∧ session.validateSnapshot = config.validateSnapshot ∧
      session.start.Fitting session := by
  obtain ⟨schema, hbuild, hnew⟩ := bind_eq_ok_iff.mp hsession
  cases hnew
  have hfree : schema.PrefixFree := SchemaSection.prefixFree_of_build hbuild
  refine ⟨hfree, rfl, .refl _, Store.Fits.self hfree ?_⟩
  intro path held hleaf
  exact absurd hleaf (Store.layout_empty_ne_leaf path held)

/-- In a session that checks its snapshots, a write only ever conflicts with an object without any
value that the last snapshot has at a declared path. -/
theorem conflict_of_checked_session {config : Config} {session : Session}
    (hsession : ofConfig config = .ok session) (hvalidate : config.validateSnapshot = true)
    (depth : Nat) (operations : List Operation) (operation : Operation) {error : WriteError}
    (hresult : .error (.write error) ∈
      ((session.start.after depth operations).session.perform depth operation).result)
    (hconflict : error.IsConflict) :
    ∃ path : Path, error = .branchConflict path.dotted 0 ∧
      session.schema.declares path = true ∧
      (session.start.after depth operations).loaded.IsHollow path := by
  obtain ⟨hfree, hcheck, hstart⟩ := fitting_start_of_ofConfig hsession
  rw [hvalidate] at hcheck
  obtain ⟨halike, hfits⟩ := Progress.after_of_next depth
    (fun _ operation h => h.next hfree hcheck depth operation) hstart operations
  rw [← halike.schema] at hfree hfits ⊢
  have hlaw := conflict_law (session.start.after depth operations).session.options hfree
    (session.start.after depth operations).loaded
  exact (perform_of_law depth hlaw hfits operation).2 _ hresult error rfl hconflict

end Session

/-- A configuration of the lamp that checks snapshots. -/
def Config.checkedLamp : Config := ⟨⟨none, some true⟩, ⟨none, none⟩, .lamp⟩

namespace Session

theorem ofConfig_checkedLamp : ofConfig .checkedLamp = .ok (new .lamp ⟨false⟩ true) := by
  rw [ofConfig, Config.buildSchema, Config.checkedLamp, SchemaSection.build_lamp]
  rfl

/-- A snapshot with an object in place of the switch is taken, and the switch cannot be set. -/
theorem results_checkedLamp :
    (((new .lamp ⟨false⟩ true).start.after 0
        [.load [("lamp", .object [("on", .object [])])]]).session.perform 0
      (.apply (.set .lampOn (.bool true) none))).result =
    [.error (.write (.branchConflict "lamp.on" 0))] := rfl

/-- Conflicts do occur in a session that checks its snapshots. -/
theorem conflict_over_empty_object :
    ¬ ∀ (config : Config) (session : Session), ofConfig config = .ok session →
      config.validateSnapshot = true → ∀ depth operations operation error,
      .error (.write error) ∈
        ((session.start.after depth operations).session.perform depth operation).result →
      ¬ error.IsConflict := by
  intro hnever
  refine hnever .checkedLamp _ ofConfig_checkedLamp rfl 0
    [.load [("lamp", .object [("on", .object [])])]] (.apply (.set .lampOn (.bool true) none))
    (.branchConflict "lamp.on" 0) ?_ trivial
  rw [results_checkedLamp]
  exact List.mem_singleton.mpr rfl

/-- The object in the way is that of the snapshot. -/
theorem conflict_of_checked_session_lamp :
    ofConfig .checkedLamp = .ok (new .lamp ⟨false⟩ true) ∧
      .error (.write (.branchConflict "lamp.on" 0)) ∈
        (((new .lamp ⟨false⟩ true).start.after 0
            [.load [("lamp", .object [("on", .object [])])]]).session.perform 0
          (.apply (.set .lampOn (.bool true) none))).result ∧
      ∃ path : Path, WriteError.branchConflict "lamp.on" 0 = .branchConflict path.dotted 0 ∧
        Schema.lamp.declares path = true ∧
        ((new .lamp ⟨false⟩ true).start.after 0
          [.load [("lamp", .object [("on", .object [])])]]).loaded.IsHollow path := by
  have hresult : .error (.write (.branchConflict "lamp.on" 0)) ∈
      (((new .lamp ⟨false⟩ true).start.after 0
          [.load [("lamp", .object [("on", .object [])])]]).session.perform 0
        (.apply (.set .lampOn (.bool true) none))).result := by
    rw [results_checkedLamp]
    exact List.mem_singleton.mpr rfl
  exact ⟨ofConfig_checkedLamp, hresult,
    conflict_of_checked_session ofConfig_checkedLamp rfl 0 _ _ hresult trivial⟩

end Session

end PropertyTree
