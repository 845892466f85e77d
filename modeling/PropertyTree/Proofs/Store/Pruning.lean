import PropertyTree.Proofs.Store.Isolation
import PropertyTree.Proofs.Store.Views

/-! # Empty branches

A delete takes along the branches above its leaf that hold nothing else, and events leave no empty
branch where there was none. Only a snapshot brings in empty branches; a leaf that is set below one
and deleted again takes it along.
-/

namespace PropertyTree

namespace Layout

/-- A branch is there with nothing below it. -/
def Bare (layout : Layout) (path : Path) : Prop :=
  layout path = .branch ∧
    ∀ beyond : Path, path.LeadsTo beyond → path ≠ beyond → layout beyond = .vacant

open Classical in
/-- The layout without what is at a path and without the branches above that hold nothing else. -/
noncomputable def prune (layout : Layout) (path : Path) : Layout :=
  fun here => if here.LeadsTo path ∧ ¬ layout.Forks here path then .vacant else layout here

theorem prune_of_not_forks {layout : Layout} {path here : Path} (hleads : here.LeadsTo path)
    (hforks : ¬ layout.Forks here path) : layout.prune path here = .vacant :=
  if_pos ⟨hleads, hforks⟩

theorem prune_of_forks {layout : Layout} {path here : Path} (hforks : layout.Forks here path) :
    layout.prune path here = layout here :=
  if_neg fun h => h.2 hforks

theorem prune_of_not_leadsTo {layout : Layout} {path here : Path} (hleads : ¬ here.LeadsTo path) :
    layout.prune path here = layout here :=
  if_neg fun h => hleads h.1

theorem Bare.not_forks {layout : Layout} {here path : Path} (hbare : layout.Bare here)
    (hleads : here.LeadsTo path) : ¬ layout.Forks here path := by
  rintro ⟨beyond, hbeyond, hoff, hthere⟩
  exact hthere (hbare.2 beyond hbeyond (hleads.ne_of_not_leadsTo hoff))

/-- What is off the way to a bare branch is off the way to all paths below it. -/
theorem Bare.forks_iff {layout : Layout} {path above : Path} (hbare : layout.Bare above)
    (hway : above.LeadsTo path) (here : Path) :
    layout.Forks here path ↔ layout.Forks here above := by
  constructor
  · rintro ⟨beyond, hbeyond, hoff, hthere⟩
    exact ⟨beyond, hbeyond, fun hlead => hoff (hlead.trans hway), hthere⟩
  · rintro ⟨beyond, hbeyond, hoff, hthere⟩
    refine ⟨beyond, hbeyond, fun hlead => ?_, hthere⟩
    have hbelow : above.LeadsTo beyond := (hway.total hlead).resolve_right hoff
    exact hthere (hbare.2 beyond hbelow ((Path.LeadsTo.refl above).ne_of_not_leadsTo hoff))

/-- Pruning a path below a bare branch prunes the branch. -/
theorem Bare.prune_eq {layout : Layout} {path above : Path} (hbare : layout.Bare above)
    (hway : above.LeadsTo path) : layout.prune path = layout.prune above := by
  funext here
  by_cases hleads : here.LeadsTo above
  · by_cases hforks : layout.Forks here above
    · rw [prune_of_forks hforks, prune_of_forks ((hbare.forks_iff hway here).mpr hforks)]
    · rw [prune_of_not_forks hleads hforks,
        prune_of_not_forks (hleads.trans hway) (mt (hbare.forks_iff hway here).mp hforks)]
  · rw [prune_of_not_leadsTo hleads]
    by_cases hlead : here.LeadsTo path
    · -- Here lies below the bare branch, where nothing is.
      have hbelow : above.LeadsTo here := (hlead.total hway).resolve_left hleads
      have hne : above ≠ here := (Path.LeadsTo.refl above).ne_of_not_leadsTo hleads
      by_cases hforks : layout.Forks here path
      · rw [prune_of_forks hforks]
      · rw [prune_of_not_forks hlead hforks, hbare.2 here hbelow hne]
    · rw [prune_of_not_leadsTo hlead]

/-- An assignment makes no branch bare. -/
theorem bare_of_assign {layout : Layout} {path here : Path} {held : Option Leaf}
    (hbare : (layout.assign path held).Bare here) : layout.Bare here := by
  obtain ⟨hbranch, hbelow⟩ := hbare
  by_cases hleads : here.LeadsTo path
  · exfalso
    by_cases hself : here = path
    · subst hself
      rw [assign_self] at hbranch
      cases held <;> cases hbranch
    · rw [assign_above hleads hself] at hbranch
      split at hbranch
      next hneeds =>
        rcases hneeds with hsome | ⟨beyond, hbeyond, hoff, hthere⟩
        · have hvacant := hbelow path hleads hself
          obtain ⟨leaf, rfl⟩ := Option.isSome_iff_exists.mp hsome
          rw [assign_self] at hvacant
          cases hvacant
        · have hvacant := hbelow beyond hbeyond (hleads.ne_of_not_leadsTo hoff)
          rw [assign_of_not_leadsTo hoff] at hvacant
          exact hthere hvacant
      next => cases hbranch
  · rw [assign_of_not_leadsTo hleads] at hbranch
    refine ⟨hbranch, ?_⟩
    intro beyond hbeyond hne
    have hoff : ¬ beyond.LeadsTo path := fun hlead => hleads (hbeyond.trans hlead)
    rw [← hbelow beyond hbeyond hne, assign_of_not_leadsTo hoff]

end Layout

namespace Store

/-- An empty branch is a bare one. -/
theorem node?_eq_empty_iff {store : Store} {path : Path} :
    store.node? path = some (.branch []) ↔ store.layout.Bare path := by
  constructor
  · intro hnode
    refine ⟨by rw [layout_eq_ofNode?, hnode]; rfl, ?_⟩
    rintro beyond ⟨rest, hrest⟩ hne
    have hempty : rest ≠ [] := by
      rintro rfl
      exact hne (Path.ext (by simpa using hrest))
    rw [layout, ← hrest, Tree.site_append hnode]
    cases rest with
    | nil => exact absurd rfl hempty
    | cons step rest => rfl
  · rintro ⟨hbranch, hbelow⟩
    rw [layout_eq_ofNode?] at hbranch
    cases hnode : store.node? path with
    | none =>
        rw [hnode] at hbranch
        cases hbranch
    | some node =>
        rw [hnode] at hbranch
        cases node with
        | leaf held => cases hbranch
        | branch children =>
            have hempty : children.isEmpty = true := by
              rw [Tree.isEmpty_iff_vacant]
              intro walk hwalk
              rw [← Tree.site_append hnode]
              refine hbelow ⟨path.segments ++ walk, by simp [path.nonempty]⟩
                (List.prefix_append _ _) ?_
              intro heq
              have hsegments := congrArg Path.segments heq
              exact hwalk (by simpa using hsegments)
            rw [List.isEmpty_iff.mp hempty]

/-- Where something forks off the way there is a branch. -/
theorem layout_of_forks {store : Store} {here path : Path} (hleads : here.LeadsTo path)
    (hforks : store.layout.Forks here path) : store.layout here = .branch := by
  obtain ⟨beyond, hbeyond, hoff, hthere⟩ := hforks
  exact store.layout_above hbeyond (hleads.ne_of_not_leadsTo hoff) hthere

/-- Assigning nothing to a path that is no branch prunes it. -/
theorem assign_none_eq_prune {store : Store} {path : Path} (hend : store.layout path ≠ .branch) :
    store.layout.assign path none = store.layout.prune path := by
  funext here
  by_cases hleads : here.LeadsTo path
  · by_cases hself : here = path
    · subst hself
      rw [Layout.assign_self, Layout.prune_of_not_forks hleads]
      · rfl
      · intro hforks
        exact hend (layout_of_forks hleads hforks)
    · rw [Layout.assign_above hleads hself, Layout.needs_none_iff]
      by_cases hforks : store.layout.Forks here path
      · rw [if_pos hforks, Layout.prune_of_forks hforks, layout_of_forks hleads hforks]
      · rw [if_neg hforks, Layout.prune_of_not_forks hleads hforks]
  · rw [Layout.assign_of_not_leadsTo hleads, Layout.prune_of_not_leadsTo hleads]

/-- Above a path that holds nothing and may hold a leaf, a node that has nothing off the way below
it is a bare branch or has one below it. -/
theorem exists_bare_of_not_forks {store : Store} {path here : Path}
    (hvacant : store.layout path = .vacant) (hway : store.blocker? path = none)
    (habove : here.isAbove path = true) (hthere : store.layout here ≠ .vacant)
    (hforks : ¬ store.layout.Forks here path) :
    ∃ above : Path, above.isAbove path = true ∧ store.layout.Bare above := by
  by_cases hbare : store.layout.Bare here
  · exact ⟨here, habove, hbare⟩
  · have hbranch : store.layout here = .branch := by
      cases hsite : store.layout here with
      | vacant => exact absurd hsite hthere
      | branch => rfl
      | leaf held =>
          rw [blocker?_eq_some_iff.mpr ⟨habove, held, hsite⟩] at hway
          cases hway
    have hbelow : ∃ beyond : Path, here.LeadsTo beyond ∧ here ≠ beyond ∧
        store.layout beyond ≠ .vacant := by
      simpa [Layout.Bare, hbranch] using hbare
    obtain ⟨beyond, hbeyond, hne, hnode⟩ := hbelow
    have hlead : beyond.LeadsTo path :=
      Decidable.byContradiction fun hoff => hforks ⟨beyond, hbeyond, hoff, hnode⟩
    have hself : beyond ≠ path := by
      rintro rfl
      exact hnode hvacant
    have hforks' : ¬ store.layout.Forks beyond path := by
      rintro ⟨further, hfurther, hoff, hfar⟩
      exact hforks ⟨further, hbeyond.trans hfurther, hoff, hfar⟩
    -- The walk to the path is finite, so going down along it comes to an end.
    have hlonger : here.length < beyond.length := by
      refine Nat.lt_of_le_of_ne hbeyond.length_le ?_
      intro hlength
      exact hne (Path.ext (hbeyond.eq_of_length hlength))
    have hbound : beyond.length ≤ path.length := hlead.length_le
    exact exists_bare_of_not_forks hvacant hway (Path.isAbove_iff.mpr ⟨hlead, hself⟩) hnode hforks'
termination_by path.length - here.length

/-- Pruning a path that holds nothing changes nothing just when no branch above is bare. -/
theorem prune_eq_self_iff {store : Store} {path : Path} (hvacant : store.layout path = .vacant)
    (hway : store.blocker? path = none) :
    store.layout.prune path = store.layout ↔
      ∀ above : Path, above.isAbove path = true → ¬ store.layout.Bare above := by
  constructor
  · intro hsame above habove hbare
    have hleads := (Path.isAbove_iff.mp habove).1
    have hgone := Layout.prune_of_not_forks hleads (hbare.not_forks hleads)
    rw [hsame, hbare.1] at hgone
    cases hgone
  · intro hfull
    funext here
    by_cases hleads : here.LeadsTo path
    · by_cases hforks : store.layout.Forks here path
      · exact Layout.prune_of_forks hforks
      · rw [Layout.prune_of_not_forks hleads hforks]
        refine Decidable.byContradiction fun hthere => ?_
        have hself : here ≠ path := by
          rintro rfl
          exact hthere hvacant.symm
        obtain ⟨above, habove, hbare⟩ := exists_bare_of_not_forks hvacant hway
          (Path.isAbove_iff.mpr ⟨hleads, hself⟩) (Ne.symm hthere) hforks
        exact hfull above habove hbare
    · exact Layout.prune_of_not_leadsTo hleads

variable {options : Options} {schema : Schema} {store : Store} {path : Path}

/-- Events make no empty branches. -/
theorem node?_eq_empty_of_next {event : Event}
    (hnode : (store.next options schema event).node? path = some (.branch [])) :
    store.node? path = some (.branch []) := by
  rcases store.next_cases options schema event with hsame | ⟨held, _, hlayout⟩
  · rwa [hsame] at hnode
  · rw [node?_eq_empty_iff, hlayout] at hnode
    exact node?_eq_empty_iff.mpr (Layout.bare_of_assign hnode)

/-- A delete that finds a leaf prunes its path. -/
theorem layout_next_of_delete {change : Change}
    (h : store.answer options schema (.delete path) = .ok (.applied change)) :
    (store.next options schema (.delete path)).layout = store.layout.prune path := by
  obtain ⟨hadmitted, hreply⟩ := answer_eq_ok_iff.mp h
  rw [Event.path] at hreply
  cases hslot : store.slot path with
  | blocked blocking =>
      rw [hslot] at hreply
      cases hreply
  | branch leaves =>
      rw [hslot] at hreply
      cases hreply
  | free held =>
      cases held with
      | none =>
          rw [hslot] at hreply
          cases hreply
      | some held =>
          have hend : store.layout path ≠ .branch := by
            rw [slot_eq_free_some_iff.mp hslot]
            simp
          have hlayout := layout_next_of_revised hadmitted hslot (Option.some_ne_none held).symm
          exact hlayout.trans (assign_none_eq_prune hend)

/-- Any other delete leaves the store as it is. -/
theorem next_of_delete_of_not_applied
    (h : ∀ change, store.answer options schema (.delete path) ≠ .ok (.applied change)) :
    store.next options schema (.delete path) = store := by
  apply next_of_advance_eq
  intro held hslot
  by_cases hadmitted : (Event.delete path).isAdmitted options schema = true
  · rw [Event.advance_of_admitted hadmitted]
    cases held with
    | none => rfl
    | some held =>
        have happlied : store.answer options schema (.delete path) =
            .ok (.applied ⟨path, some held.value, none, none⟩) :=
          answer_eq_ok_iff.mpr ⟨hadmitted, by rw [hslot, Slot.reply, Event.revise]⟩
        exact absurd happlied (h _)
  · exact Event.advance_of_not_admitted hadmitted held

/-- A set where nothing was, and a delete after it, prune the path. -/
theorem layout_next_set_delete {value : Value} {version : Option Version} {outcome : Outcome}
    (hvacant : store.layout path = .vacant)
    (hset : store.answer options schema (.set path value version) = .ok outcome) :
    store.blocker? path = none ∧
      ((store.next options schema (.set path value version)).next options schema
        (.delete path)).layout = store.layout.prune path := by
  obtain ⟨hadmitted, hreply⟩ := answer_eq_ok_iff.mp hset
  have hadmitted' : (Event.delete path).isAdmitted options schema = true := by
    rw [Event.isAdmitted_iff, Event.check_set] at hadmitted
    rw [Event.isAdmitted_iff, Event.check_delete]
    cases hget : schema.get? path with
    | some descriptor => rfl
    | none =>
        rw [hget] at hadmitted
        cases hadmitted
  cases hway : store.blocker? path with
  | some blocking =>
      rw [Event.path, slot, hway] at hreply
      cases hreply
  | none =>
      have hslot : store.slot (Event.set path value version).path = .free none :=
        slot_eq_free_iff.mpr ⟨hway, hvacant⟩
      have hfirst := layout_next_of_revised hadmitted hslot (Option.some_ne_none _)
      have hthen : (store.next options schema (.set path value version)).slot
          (Event.delete path).path = .free (some ⟨value, version⟩) := slot_of_assign hfirst
      have hsecond := layout_next_of_revised hadmitted' hthen (Option.some_ne_none _).symm
      rw [hfirst, Event.path, Event.path, Layout.assign_assign] at hsecond
      refine ⟨rfl, hsecond.trans (assign_none_eq_prune ?_)⟩
      rw [hvacant]
      simp

/-- A store is empty just if there is nothing to clear in it. -/
theorem clear_eq_self_iff {store : Store} : store.clear = store ↔ store.isEmpty = true := by
  rw [isEmpty, List.isEmpty_iff]
  constructor
  · intro hclear
    exact (congrArg tree hclear).symm
  · intro hnil
    obtain ⟨tree, ordered⟩ := store
    cases hnil
    rfl

/-- A store without empty branches is empty just if it has no leaves. -/
theorem isEmpty_iff_leafCount {store : Store}
    (hfull : ∀ path : Path, store.node? path ≠ some (.branch [])) :
    store.isEmpty = true ↔ store.leafCount = 0 := by
  constructor
  · intro hempty
    rw [leafCount, List.isEmpty_iff.mp hempty]
    rfl
  · intro hcount
    obtain ⟨steps, hsteps⟩ := Tree.exists_empty hcount
    cases steps with
    | nil =>
        have hnil : store.tree = [] := Node.branch.inj (Option.some.inj hsteps)
        rw [isEmpty, hnil]
        rfl
    | cons step rest => exact absurd hsteps (hfull ⟨step :: rest, by simp⟩)

theorem node?_after_ne_empty (options : Options) (schema : Schema) {store : Store}
    (hfull : ∀ path : Path, store.node? path ≠ some (.branch [])) (events : List Event)
    (path : Path) : (store.after options schema events).node? path ≠ some (.branch []) := by
  induction events generalizing store with
  | nil => exact hfull path
  | cons event rest ih =>
      apply ih
      intro path hnode
      exact hfull path (node?_eq_empty_of_next hnode)

theorem node?_empty (path : Path) : Store.empty.node? path = none := by
  obtain ⟨segments, hnonempty⟩ := path
  cases segments with
  | nil => exact absurd rfl hnonempty
  | cons step rest => rfl

end Store

namespace Json

theorem member?_reduce (json : Json) (key : String) :
    json.reduce.member? key = (json.member? key).map reduce := by
  cases json with
  | object members =>
      rw [reduce, reduceMembers_eq]
      exact Keyed.find?_mapValues ..
  | null | bool _ | number _ | string _ | array _ => rfl

theorem walk?_reduce (keys : List String) (json : Json) :
    json.reduce.walk? keys = (json.walk? keys).map reduce := by
  induction keys generalizing json with
  | nil => rfl
  | cons key rest ih =>
      rw [walk?, walk?, member?_reduce]
      cases json.member? key with
      | none => rfl
      | some value => exact ih value

/-- No object that a walk by keys comes to is empty. -/
def IsFilled (json : Json) : Prop :=
  ∀ keys, keys ≠ [] → json.walk? keys ≠ some (.object [])

theorem isFilled_object {members : List (String × Json)}
    (hbelow : ∀ member ∈ members, member.2 ≠ .object [] ∧ member.2.IsFilled) :
    (Json.object members).IsFilled := by
  intro keys hkeys hwalk
  cases keys with
  | nil => exact hkeys rfl
  | cons key rest =>
      obtain ⟨child, hchild, hrest⟩ := Option.bind_eq_some_iff.mp hwalk
      obtain ⟨hne, hfilled⟩ := hbelow _ (Keyed.mem_of_find?_eq_some hchild)
      by_cases hend : rest = []
      · subst hend
        exact hne (Option.some.inj hrest)
      · exact hfilled rest hend hrest

theorem isFilled_scalar {json : Json} (hscalar : ∀ members, json ≠ .object members) :
    json.IsFilled := by
  intro keys hkeys hwalk
  cases keys with
  | nil => exact hkeys rfl
  | cons key rest =>
      cases json with
      | object members => exact hscalar members rfl
      | null | bool _ | number _ | string _ | array _ => cases hwalk

theorem eq_empty_of_reduce {json : Json} (h : json.reduce = .object []) : json = .object [] := by
  cases json with
  | object members =>
      cases members with
      | nil => rfl
      | cons member rest => cases h
  | null | bool _ | number _ | string _ | array _ => cases h

end Json

namespace Store

/-- A snapshot without empty objects brings in no empty branches. -/
theorem node?_ne_empty_of_bulkLoad {other store : Store} {members : List (String × Json)}
    {count : Nat} (hordered : (Json.object members).Ordered)
    (hfilled : (Json.object members).IsFilled) (hload : other.bulkLoad members = (store, .ok count))
    (path : Path) : store.node? path ≠ some (.branch []) := by
  intro hnode
  have hwalk : store.toJson.walk? path.texts = some (.object []) := by
    rw [← subtree?_eq_walk?, subtree?, hnode]
    rfl
  obtain ⟨loaded, hloaded, _⟩ := bulkLoad_eq_ok_iff.mp (congrArg Prod.snd hload)
  have hstore : loaded = store := by
    rw [bulkLoad_of_ofSnapshot hloaded] at hload
    exact congrArg Prod.fst hload
  have htree : Snapshot.tree [] members = .ok store.tree :=
    ofSnapshot_eq_ok_iff.mp (hstore ▸ hloaded)
  rw [Json.Ordered] at hordered
  have hjson : store.toJson = (Json.object members).reduce :=
    congrArg Json.object (Snapshot.members_of_tree hordered.1 hordered.2 htree)
  rw [hjson, Json.walk?_reduce] at hwalk
  obtain ⟨value, hvalue, hreduce⟩ := Option.map_eq_some_iff.mp hwalk
  rw [Json.eq_empty_of_reduce hreduce] at hvalue
  exact hfilled path.texts path.texts_ne_nil hvalue

/-- Pruning is exact. Events make no empty branches; a delete takes out its leaf and the branches
above that hold nothing else, so that a store without empty branches at first has no nodes whenever
it has no leaves. A set where nothing was is undone by a delete, unless a branch above was empty:
then this branch is pruned. -/
theorem pruning_is_exact (options : Options) (schema : Schema) :
    (∀ (store : Store) (event : Event) (path : Path),
      (store.next options schema event).node? path = some (.branch []) →
        store.node? path = some (.branch [])) ∧
    (∀ (store : Store) (path : Path),
      let answer := store.answer options schema (.delete path)
      let after := store.next options schema (.delete path)
      (∀ change, answer = .ok (.applied change) → after.layout = store.layout.prune path) ∧
        ((∀ change, answer ≠ .ok (.applied change)) → after = store)) ∧
    (∀ (store : Store) (events : List Event),
      (store = .empty ∨ ∃ (other : Store) (members : List (String × Json)) (count : Nat),
        (Json.object members).Ordered ∧ (Json.object members).IsFilled ∧
          other.bulkLoad members = (store, .ok count)) →
      let after := store.after options schema events
      (after.isEmpty = true ↔ after.leafCount = 0)) ∧
    ∀ (store : Store) (path : Path) (value : Value) (version : Option Version) (outcome : Outcome),
      store.node? path = none →
      store.answer options schema (.set path value version) = .ok outcome →
      let after := (store.next options schema (.set path value version)).next options schema
        (.delete path)
      (after = store ↔
        ∀ above : Path, above.isAbove path = true → store.node? above ≠ some (.branch [])) ∧
      ∀ above : Path, above.isAbove path = true → store.node? above = some (.branch []) →
        after.layout = store.layout.prune above := by
  refine ⟨fun _ _ _ => node?_eq_empty_of_next,
    fun _ _ => ⟨fun _ => layout_next_of_delete, next_of_delete_of_not_applied⟩, ?_, ?_⟩
  · intro store events hstart after
    have hfull : ∀ path : Path, store.node? path ≠ some (.branch []) := by
      intro path
      rcases hstart with rfl | ⟨other, members, count, hordered, hfilled, hload⟩
      · rw [node?_empty]
        nofun
      · exact node?_ne_empty_of_bulkLoad hordered hfilled hload path
    exact isEmpty_iff_leafCount (node?_after_ne_empty options schema hfull events)
  · intro store path value version outcome hnode hset after
    have hvacant : store.layout path = .vacant := by
      rw [layout_eq_ofNode?, hnode]
      rfl
    obtain ⟨hway, hlayout⟩ := layout_next_set_delete hvacant hset
    constructor
    · have hsame : after = store ↔ after.layout = store.layout :=
        ⟨congrArg layout, ext_layout⟩
      rw [hsame, show after.layout = _ from hlayout, prune_eq_self_iff hvacant hway]
      simp only [ne_eq, node?_eq_empty_iff]
    · intro above habove hempty
      rw [show after.layout = _ from hlayout]
      exact (node?_eq_empty_iff.mp hempty).prune_eq (Path.isAbove_iff.mp habove).1

/-- A lamp with one property, and one whose properties are all gone. -/
theorem pruning_is_exact_lamp :
    let lamp : Path := ⟨[⟨"lamp", by decide, by decide⟩], by decide⟩
    let dimmed := [("lamp", Json.object [("dim", .bool true)])]
    let store := (Store.empty.bulkLoad dimmed).1
    let hollow := (Store.empty.bulkLoad [("lamp", .object [])]).1
    let switchOn : Event := .set .lampOn (.bool true) none
    let deleted (store : Store) (path : Path) := store.next ⟨false⟩ .lamp (.delete path)
    let undone (store : Store) := deleted (store.next ⟨false⟩ .lamp switchOn) .lampOn
    (Json.object dimmed).Ordered ∧ (Json.object dimmed).IsFilled ∧
      (deleted store .lampDim).layout = store.layout.prune .lampDim ∧
      deleted store .lampOn = store ∧
      (store.after ⟨false⟩ .lamp [.delete .lampDim]).leafCount = 0 ∧
      (store.after ⟨false⟩ .lamp [.delete .lampDim]).isEmpty = true ∧
      undone store = store ∧
      hollow.node? lamp = some (.branch []) ∧ undone hollow ≠ hollow ∧
      (undone hollow).layout = hollow.layout.prune lamp := by
  intro lamp dimmed store hollow switchOn deleted undone
  have hordered : (Json.object dimmed).Ordered := by
    simp [dimmed, Json.Ordered, Json.OrderedMembers, Keyed.Ordered]
  have hfilled : (Json.object dimmed).IsFilled := by
    apply Json.isFilled_object
    rw [List.forall_mem_singleton]
    refine ⟨by simp, Json.isFilled_object ?_⟩
    rw [List.forall_mem_singleton]
    exact ⟨by simp, Json.isFilled_scalar (by simp)⟩
  obtain ⟨_, hdelete, hcount, hundo⟩ := pruning_is_exact ⟨false⟩ .lamp
  have hload : Store.empty.bulkLoad dimmed = (store, .ok 1) := rfl
  have hnone : (store.after ⟨false⟩ .lamp [.delete .lampDim]).leafCount = 0 := rfl
  have habsent : store.answer ⟨false⟩ .lamp (.delete .lampOn) = .ok (.noOp .absent) := rfl
  have hstays : deleted store .lampOn = store := by
    apply (hdelete store .lampOn).2
    intro change hanswer
    rw [habsent] at hanswer
    cases hanswer
  have habove : lamp.isAbove .lampOn = true := rfl
  have hempty : hollow.node? lamp = some (.branch []) := rfl
  obtain ⟨hrestores, _⟩ := hundo store .lampOn (.bool true) none _ rfl rfl
  obtain ⟨hfails, hprunes⟩ := hundo hollow .lampOn (.bool true) none _ rfl rfl
  have hbelow : ∀ above : Path, above.isAbove .lampOn = true →
      store.node? above ≠ some (.branch []) :=
    fun above _ => node?_ne_empty_of_bulkLoad hordered hfilled hload above
  exact ⟨hordered, hfilled, (hdelete store .lampDim).1 _ rfl, hstays, hnone,
    (hcount store [.delete .lampDim] (Or.inr ⟨_, dimmed, 1, hordered, hfilled, hload⟩)).mpr hnone,
    hrestores.mpr hbelow, hempty, fun hsame => hfails.mp hsame lamp habove hempty,
    hprunes lamp habove hempty⟩

end Store

end PropertyTree
