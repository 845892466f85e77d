import Mathlib.Data.List.DropRight
import PropertyTree.Proofs.Store.Held
import PropertyTree.Proofs.Store.Interleaving

/-! # The last writer of a path

What a path holds after a run can be told from the accepted events at it, as of the last delete: the
version is the greatest that has come in, and the value that of the last set which has no version
or none lower than one before it.
-/

namespace PropertyTree

namespace Version

theorem le_iff {a b : Version} : a ≤ b ↔ a.number.toNat ≤ b.number.toNat :=
  UInt64.le_iff_toNat_le

theorem not_lt_iff {a b : Version} : ¬ a < b ↔ b ≤ a := by
  rw [lt_iff, le_iff]
  omega

theorem le_refl (a : Version) : a ≤ a := le_iff.mpr (Nat.le_refl _)

theorem le_trans {a b c : Version} (hab : a ≤ b) (hbc : b ≤ c) : a ≤ c := by
  rw [le_iff] at *
  omega

/-- The version is the greatest of some; there is none only if there are none of them. -/
def IsGreatestOf (versions : List Version) : Option Version → Prop
  | none => versions = []
  | some n => n ∈ versions ∧ ∀ m ∈ versions, m ≤ n

end Version

namespace Event

/-- The value that the event brings. -/
def value? : Event → Option Value
  | .set _ value _ => some value
  | .delete _ => none

/-- The version that the event brings. -/
def version? : Event → Option Version
  | .set _ _ version => version
  | .delete _ => none

/-- The sets after the last delete. -/
def lastSets (events : List Event) : List Event := events.rtakeWhile (·.kind = .set)

/-- The leaf that the sets after the last delete begin with. -/
def startOf (events : List Event) (held : Option Leaf) : Option Leaf :=
  if ∀ event ∈ events, event.kind = .set then held else none

/-- The leaf held after a list of admitted events. -/
def reviseAll (events : List Event) (held : Option Leaf) : Option Leaf :=
  events.foldl (fun held event => (event.revise held).1) held

/-- The versions of a leaf and of the sets that follow. -/
def versionsOf (start : Option Leaf) (sets : List Event) : List Version :=
  (start.bind (·.version)).toList ++ sets.filterMap version?

theorem versionsOf_append (start : Option Leaf) (sets : List Event) (last : Event) :
    versionsOf start (sets ++ [last]) = versionsOf start sets ++ last.version?.toList := by
  rw [versionsOf, versionsOf, List.filterMap_append, List.append_assoc]
  cases hversion : last.version? <;> simp [hversion]

/-- The event has no version, or none that is lower than one before it. -/
def Prevails (event : Event) (start : Option Leaf) (before : List Event) : Prop :=
  ∀ n, event.version? = some n → ∀ m ∈ versionsOf start before, m ≤ n

/-- The set at this position prevails over what comes before it. -/
def PrevailsAt (start : Option Leaf) (sets : List Event) (position : Nat) (event : Event) : Prop :=
  sets[position]? = some event ∧ event.Prevails start (sets.take position)

theorem prevailsAt_append_iff {start : Option Leaf} {sets : List Event} {last event : Event}
    {position : Nat} :
    PrevailsAt start (sets ++ [last]) position event ↔
      PrevailsAt start sets position event ∨
        position = sets.length ∧ event = last ∧ last.Prevails start sets := by
  rcases Nat.lt_trichotomy position sets.length with hlt | rfl | hgt
  · have htake : (sets ++ [last]).take position = sets.take position :=
      List.take_append_of_le_length hlt.le
    rw [PrevailsAt, PrevailsAt, List.getElem?_append_left hlt, htake]
    simp [hlt.ne]
  · have hself : (sets ++ [last]).take sets.length = sets := by simp
    have hnone : sets[sets.length]? = none := List.getElem?_eq_none (Nat.le_refl _)
    rw [PrevailsAt, PrevailsAt, hself, hnone, List.getElem?_concat_length]
    constructor
    · rintro ⟨heq, hprevails⟩
      cases heq
      exact Or.inr ⟨rfl, rfl, hprevails⟩
    · rintro (⟨heq, _⟩ | ⟨_, rfl, hprevails⟩)
      · cases heq
      · exact ⟨rfl, hprevails⟩
  · have hnone : (sets ++ [last])[position]? = none := by
      rw [List.getElem?_eq_none_iff, List.length_append]
      exact hgt
    have hnone' : sets[position]? = none := List.getElem?_eq_none hgt.le
    simp [PrevailsAt, hnone, hnone', hgt.ne']

end Event

/-- The leaf in the end is what sets make of a leaf: it has the greatest version of all, and the
value of the last of them that prevails. -/
structure LastWriter (start : Option Leaf) (sets : List Event) (final : Option Leaf) : Prop where
  present : final.isSome ↔ start.isSome ∨ sets ≠ []
  version : Version.IsGreatestOf (Event.versionsOf start sets) (final.bind (·.version))
  written : ∀ position event, Event.PrevailsAt start sets position event →
    (∀ other later, Event.PrevailsAt start sets other later → other ≤ position) →
    final.map (·.value) = event.value?
  kept : (∀ position event, ¬ Event.PrevailsAt start sets position event) →
    final.map (·.value) = start.map (·.value)

namespace LastWriter

variable {start final : Option Leaf} {sets : List Event} {event : Event}

theorem nil (start : Option Leaf) : LastWriter start [] start := by
  refine ⟨by simp, ?_, ?_, fun _ => rfl⟩
  · rw [Event.versionsOf, List.filterMap_nil, List.append_nil]
    cases start.bind (·.version) with
    | none => rfl
    | some n => exact ⟨List.mem_singleton_self n, by simpa using Version.le_refl n⟩
  · intro position event hat _
    cases hat.1

/-- A further event prevails unless it is outranked in the end. -/
theorem prevails_iff (h : LastWriter start sets final) :
    event.Prevails start sets ↔ ∀ n, event.version? = some n → ¬ Outranks final n := by
  have hgreatest := h.version
  constructor
  · rintro hprevails n hn ⟨current, hcurrent, hlt⟩
    obtain ⟨leaf, rfl, hleaf⟩ := Option.map_eq_some_iff.mp hcurrent
    rw [Option.bind_some, hleaf] at hgreatest
    exact Version.not_lt_iff.mpr (hprevails n hn current hgreatest.1) hlt
  · intro hin n hn m hm
    cases hversion : final.bind (·.version) with
    | none =>
        rw [hversion] at hgreatest
        rw [show Event.versionsOf start sets = [] from hgreatest] at hm
        cases hm
    | some current =>
        rw [hversion] at hgreatest
        obtain ⟨leaf, rfl, hleaf⟩ := Option.bind_eq_some_iff.mp hversion
        have hheld : (some leaf).map (·.version) = some (some current) := congrArg some hleaf
        have hle : ¬ n < current := by
          rw [← outranks_iff hheld]
          exact hin n hn
        exact Version.le_trans (hgreatest.2 m hm) (Version.not_lt_iff.mp hle)

/-- A set that prevails writes its value, and its version if it has one. -/
theorem revise_of_prevails {path : Path} {value : Value} {version : Option Version}
    (h : LastWriter start sets final)
    (hprevails : (Event.set path value version).Prevails start sets) :
    ((Event.set path value version).revise final).1 =
      some ⟨value, version <|> final.bind (·.version)⟩ := by
  cases version with
  | none => exact Event.revise_unnumbered path value final
  | some n =>
      rw [Event.revise_numbered, if_neg (h.prevails_iff.mp hprevails n rfl)]
      rfl

/-- A set that does not prevail comes too late. -/
theorem exists_outranked {path : Path} {value : Value} {version : Option Version}
    (h : LastWriter start sets final)
    (hprevails : ¬ (Event.set path value version).Prevails start sets) :
    ∃ n, version = some n ∧ Outranks final n ∧
      ((Event.set path value version).revise final).1 = final := by
  rw [h.prevails_iff] at hprevails
  push Not at hprevails
  obtain ⟨n, rfl, hout⟩ := hprevails
  exact ⟨n, rfl, hout, by rw [Event.revise_numbered, if_pos hout]⟩

theorem version_append (h : LastWriter start sets final) (hset : event.kind = .set) :
    Version.IsGreatestOf (Event.versionsOf start (sets ++ [event]))
      ((event.revise final).1.bind (·.version)) := by
  have hgreatest := h.version
  rw [Event.versionsOf_append]
  cases event with
  | delete path => cases hset
  | set path value version =>
      by_cases hprevails : (Event.set path value version).Prevails start sets
      · rw [h.revise_of_prevails hprevails]
        cases version with
        | none =>
            rw [Event.version?, Option.toList_none, List.append_nil]
            exact hgreatest
        | some n =>
            refine ⟨List.mem_append_right _ (List.mem_singleton_self n), ?_⟩
            intro m hm
            rcases List.mem_append.mp hm with hm | hm
            · exact hprevails n rfl m hm
            · rw [List.mem_singleton.mp hm]
              exact Version.le_refl n
      · obtain ⟨n, rfl, ⟨current, hcurrent, hlt⟩, hrevise⟩ := h.exists_outranked hprevails
        obtain ⟨leaf, rfl, hleaf⟩ := Option.map_eq_some_iff.mp hcurrent
        rw [hrevise]
        rw [Option.bind_some, hleaf] at hgreatest ⊢
        refine ⟨List.mem_append_left _ hgreatest.1, ?_⟩
        intro m hm
        rcases List.mem_append.mp hm with hm | hm
        · exact hgreatest.2 m hm
        · rw [List.mem_singleton.mp hm]
          exact Version.not_lt_iff.mp (Version.lt_asymm hlt)

theorem value_of_prevails (h : LastWriter start sets final) (hset : event.kind = .set)
    (hprevails : event.Prevails start sets) :
    (event.revise final).1.map (·.value) = event.value? := by
  cases event with
  | delete path => cases hset
  | set path value version =>
      rw [h.revise_of_prevails hprevails]
      rfl

theorem revise_of_not_prevails (h : LastWriter start sets final) (hset : event.kind = .set)
    (hprevails : ¬ event.Prevails start sets) : (event.revise final).1 = final := by
  cases event with
  | delete path => cases hset
  | set path value version =>
      obtain ⟨_, _, _, hrevise⟩ := h.exists_outranked hprevails
      exact hrevise

/-- One more set is taken into account by revising the leaf. -/
theorem append (h : LastWriter start sets final) (hset : event.kind = .set) :
    LastWriter start (sets ++ [event]) (event.revise final).1 := by
  refine ⟨?_, h.version_append hset, ?_, ?_⟩
  · simp [Event.isSome_revise hset]
  · intro position other hat hlatest
    rcases Event.prevailsAt_append_iff.mp hat with hold | ⟨rfl, rfl, hprevails⟩
    · have hlate : ¬ event.Prevails start sets := by
        intro hprevails
        have hle := hlatest sets.length event
          (Event.prevailsAt_append_iff.mpr (Or.inr ⟨rfl, rfl, hprevails⟩))
        have hlt := (List.getElem?_eq_some_iff.mp hold.1).1
        omega
      rw [h.revise_of_not_prevails hset hlate]
      refine h.written position other hold ?_
      intro earlier later hlater
      exact hlatest earlier later (Event.prevailsAt_append_iff.mpr (Or.inl hlater))
    · exact h.value_of_prevails hset hprevails
  · intro hnone
    have hlate : ¬ event.Prevails start sets := fun hprevails =>
      hnone sets.length event (Event.prevailsAt_append_iff.mpr (Or.inr ⟨rfl, rfl, hprevails⟩))
    rw [h.revise_of_not_prevails hset hlate]
    refine h.kept ?_
    intro position other hat
    exact hnone position other (Event.prevailsAt_append_iff.mpr (Or.inl hat))

/-- Admitted events have the sets after the last delete as their last writers. -/
theorem of_reviseAll (events : List Event) (held : Option Leaf) :
    LastWriter (Event.startOf events held) (Event.lastSets events)
      (Event.reviseAll events held) := by
  induction events using List.reverseRecOn with
  | nil => exact .nil held
  | append_singleton front last ih =>
      have hall : Event.reviseAll (front ++ [last]) held =
          (last.revise (Event.reviseAll front held)).1 := by
        rw [Event.reviseAll, List.foldl_append]
        rfl
      rw [hall]
      by_cases hset : last.kind = .set
      · have hsets : Event.lastSets (front ++ [last]) = Event.lastSets front ++ [last] :=
          List.rtakeWhile_concat_pos _ _ _ (decide_eq_true hset)
        have hstart : Event.startOf (front ++ [last]) held = Event.startOf front held := by
          simp [Event.startOf, hset, or_imp, forall_and]
        rw [hsets, hstart]
        exact ih.append hset
      · have hsets : Event.lastSets (front ++ [last]) = [] :=
          List.rtakeWhile_concat_neg _ _ _ (by simpa using hset)
        have hstart : Event.startOf (front ++ [last]) held = none := by
          simp [Event.startOf, hset, or_imp, forall_and]
        rw [hsets, hstart]
        cases last with
        | set path value version => exact absurd rfl hset
        | delete path =>
            cases Event.reviseAll front held <;> exact .nil none

end LastWriter

namespace Store

variable (options : Options) (schema : Schema)

/-- The events of a run at one path that are not refused. -/
def acceptedAt (store : Store) (events : List Event) (path : Path) : List Event :=
  (store.resultsAt options schema events path).filterMap fun entry =>
    entry.2.toOption.map fun _ => entry.1

theorem acceptedAt_cons_of_ne {event : Event} {path : Path} (hne : event.path ≠ path)
    (store : Store) (rest : List Event) :
    store.acceptedAt options schema (event :: rest) path =
      (store.next options schema event).acceptedAt options schema rest path := by
  rw [acceptedAt, resultsAt_cons, if_neg hne]
  rfl

theorem acceptedAt_cons_of_error {event : Event} {failure : Failure} {store : Store}
    (hanswer : store.answer options schema event = .error failure) (rest : List Event)
    (path : Path) :
    store.acceptedAt options schema (event :: rest) path =
      (store.next options schema event).acceptedAt options schema rest path := by
  rw [acceptedAt, resultsAt_cons]
  split
  next => rw [hanswer]; rfl
  next => rfl

theorem acceptedAt_cons_of_ok {event : Event} {outcome : Outcome} {store : Store}
    (hanswer : store.answer options schema event = .ok outcome) (rest : List Event) :
    store.acceptedAt options schema (event :: rest) event.path =
      event :: (store.next options schema event).acceptedAt options schema rest event.path := by
  rw [acceptedAt, resultsAt_cons, if_pos rfl, hanswer]
  rfl

/-- No event touches a leaf at another path. -/
theorem leaf?_next_of_ne {event : Event} {path : Path} (hne : event.path ≠ path) (store : Store) :
    (store.next options schema event).leaf? path = store.leaf? path := by
  rcases store.next_cases options schema event with hsame | ⟨held, hslot, hlayout⟩
  · rw [hsame]
  · refine Option.ext fun leaf => ?_
    rw [leaf?_eq_some_iff, leaf?_eq_some_iff]
    exact leaf_of_assign_iff hslot hlayout hne.symm

variable {options schema}

/-- Under a prefix-free schema, the slot of a declared path stays free. -/
theorem exists_free_next (hfree : schema.PrefixFree) {path : Path}
    (hdeclared : schema.declares path = true) {store : Store}
    (hslot : ∃ held, store.slot path = .free held) (event : Event) :
    ∃ held, (store.next options schema event).slot path = .free held := by
  obtain ⟨held, hslot⟩ := hslot
  by_cases heq : event.path = path
  · subst heq
    rw [slot_next_self, hslot]
    exact ⟨_, rfl⟩
  · cases hother : schema.declares event.path with
    | false => exact ⟨held, by rw [next_of_not_declares hother, hslot]⟩
    | true =>
        have hapart := hfree.apart hother hdeclared heq
        exact ⟨held, by rw [slot_next_of_apart _ _ _ hapart, hslot]⟩

theorem exists_free_after (hfree : schema.PrefixFree) {path : Path}
    (hdeclared : schema.declares path = true) {store : Store}
    (hslot : ∃ held, store.slot path = .free held) (events : List Event) :
    ∃ held, (store.after options schema events).slot path = .free held := by
  induction events generalizing store with
  | nil => exact hslot
  | cons event rest ih => exact ih (exists_free_next hfree hdeclared hslot event)

/-- What a path holds after a run is what the accepted events at it have made of its leaf. -/
theorem leaf?_after (hfree : schema.PrefixFree) {path : Path} {store : Store}
    (hslot : schema.declares path = true → ∃ held, store.slot path = .free held)
    (events : List Event) :
    (store.after options schema events).leaf? path =
      Event.reviseAll (store.acceptedAt options schema events path) (store.leaf? path) := by
  induction events generalizing store with
  | nil => rfl
  | cons event rest ih =>
      have hnext : schema.declares path = true →
          ∃ held, (store.next options schema event).slot path = .free held := fun hdeclared =>
        exists_free_next hfree hdeclared (hslot hdeclared) event
      rw [after_cons, ih hnext]
      by_cases heq : event.path = path
      · subst heq
        cases hcheck : event.check options schema with
        | error failure =>
            have hattempt := apply_of_check_error hcheck store
            have hanswer : store.answer options schema event = .error failure := by
              rw [answer, hattempt]
              rfl
            have hsame : store.next options schema event = store := by
              rw [next, hattempt]
              rfl
            rw [acceptedAt_cons_of_error options schema hanswer, hsame]
        | ok _ =>
            have hdeclared : schema.declares event.path = true := by
              rw [← Bool.not_eq_false]
              intro hother
              rw [check_of_not_declares hother] at hcheck
              cases hcheck
            obtain ⟨held, hheld⟩ := hslot hdeclared
            have hadmitted := Event.isAdmitted_iff.mpr hcheck
            have hanswer : store.answer options schema event = .ok (event.revise held).2 :=
              answer_eq_ok_iff.mpr ⟨hadmitted, by rw [hheld, Slot.reply]⟩
            have hleaf : (store.next options schema event).leaf? event.path =
                (event.revise held).1 := by
              rw [leaf?_eq_held?, slot_next_self, hheld]
              exact Event.advance_of_admitted hadmitted held
            rw [acceptedAt_cons_of_ok options schema hanswer, hleaf, leaf?_eq_held?, hheld]
            rfl
      · rw [acceptedAt_cons_of_ne options schema heq, leaf?_next_of_ne options schema heq]

/-- As long as nothing is deleted at a path, the version held there does not go down. -/
theorem version?_le_after (hfree : schema.PrefixFree) {path : Path} {store : Store}
    (hslot : schema.declares path = true → ∃ held, store.slot path = .free held)
    {events : List Event}
    (hsets : ∀ event ∈ store.acceptedAt options schema events path, event.kind = .set)
    {n : Version} (hversion : store.version? path = some n) :
    ∃ m, (store.after options schema events).version? path = some m ∧ n ≤ m := by
  have hwriter := LastWriter.of_reviseAll (store.acceptedAt options schema events path)
    (store.leaf? path)
  rw [← leaf?_after hfree hslot, Event.startOf, if_pos hsets] at hwriter
  have hgreatest := hwriter.version
  have hmem : n ∈ Event.versionsOf (store.leaf? path)
      (Event.lastSets (store.acceptedAt options schema events path)) := by
    rw [Event.versionsOf, show (store.leaf? path).bind (·.version) = some n from hversion]
    exact List.mem_append_left _ (List.mem_singleton_self n)
  rw [version?]
  cases hafter : ((store.after options schema events).leaf? path).bind (·.version) with
  | none =>
      rw [hafter] at hgreatest
      rw [show Event.versionsOf _ _ = [] from hgreatest] at hmem
      cases hmem
  | some m =>
      rw [hafter] at hgreatest
      exact ⟨m, rfl, hgreatest.2 n hmem⟩

theorem exists_free {store : Store} {path : Path}
    (habove : ∀ above : Path, above.isAbove path = true → store.leaf? above = none)
    (hhere : ∀ children, store.node? path ≠ some (.branch children)) :
    ∃ held, store.slot path = .free held := by
  cases hslot : store.slot path with
  | free held => exact ⟨held, rfl⟩
  | branch leaves =>
      obtain ⟨children, hnode, _⟩ := node?_of_slot_branch hslot
      exact absurd hnode (hhere children)
  | blocked blocking =>
      obtain ⟨hblocking, held, hleaf⟩ := blocker?_eq_some_iff.mp (slot_eq_blocked_iff.mp hslot)
      have hnone := habove blocking hblocking
      rw [leaf?_eq_some_iff.mpr hleaf] at hnone
      cases hnone

/-- Under a schema that was built, a path that can hold a leaf holds after a run what the accepted
events at it make of its leaf, as of the last delete. Its version only goes down by a delete. -/
theorem lastWriter_after {spec : SchemaSection} (hbuild : spec.build = .ok schema)
    (options : Options) {store : Store} {path : Path}
    (habove : ∀ above : Path, above.isAbove path = true → store.leaf? above = none)
    (hhere : ∀ children, store.node? path ≠ some (.branch children)) (events : List Event) :
    let accepted := store.acceptedAt options schema events path
    let after := store.after options schema events
    LastWriter (Event.startOf accepted (store.leaf? path)) (Event.lastSets accepted)
        (after.leaf? path) ∧
      ∀ front back, events = front ++ back →
        let middle := store.after options schema front
        (∀ event ∈ middle.acceptedAt options schema back path, event.kind = .set) →
        ∀ n, middle.version? path = some n →
          ∃ m, after.version? path = some m ∧ n ≤ m := by
  intro accepted after
  have hfree := SchemaSection.prefixFree_of_build hbuild
  have hslot := exists_free habove hhere
  refine ⟨?_, ?_⟩
  · rw [show after.leaf? path = _ from leaf?_after hfree (fun _ => hslot) events]
    exact .of_reviseAll accepted (store.leaf? path)
  · rintro front back rfl middle hsets n hversion
    rw [show after = _ from store.after_append options schema front back]
    exact version?_le_after hfree (fun hdeclared => exists_free_after hfree hdeclared hslot front)
      hsets hversion

/-- After the delete the switch is set thrice: to version 3, too late, and without a version. -/
theorem lastWriter_after_lamp :
    let deleted := [.set .lampOn (.bool true) (some ⟨9⟩), .delete .lampOn]
    let first := .set .lampOn (.bool true) (some ⟨3⟩)
    let late := .set .lampOn (.bool false) (some ⟨2⟩)
    let last := .set .lampOn (.bool false) none
    let back := [.set .lampDim (.bool true) (some ⟨4⟩), late, last]
    let middle := Store.empty.after ⟨false⟩ .lamp (deleted ++ [first])
    let after := Store.empty.after ⟨false⟩ .lamp (deleted ++ [first] ++ back)
    SchemaSection.lamp.build = .ok .lamp ∧
      (∀ above : Path, above.isAbove .lampOn = true → Store.empty.leaf? above = none) ∧
      (∀ children, Store.empty.node? .lampOn ≠ some (.branch children)) ∧
      after.leaf? .lampOn = some ⟨.bool false, some ⟨3⟩⟩ ∧
      LastWriter none [first, late, last] (after.leaf? .lampOn) ∧
      (∀ event ∈ middle.acceptedAt ⟨false⟩ .lamp back .lampOn, event.kind = .set) ∧
      middle.version? .lampOn = some ⟨3⟩ ∧
      ∃ m, after.version? .lampOn = some m ∧ ⟨3⟩ ≤ m := by
  intro deleted first late last back middle after
  have habove : ∀ above : Path, above.isAbove .lampOn = true → Store.empty.leaf? above = none := by
    intro above _
    refine Option.eq_none_iff_forall_ne_some.mpr ?_
    intro held hheld
    exact layout_empty_ne_leaf above held (leaf?_eq_some_iff.mp hheld)
  have hhere : ∀ children, Store.empty.node? .lampOn ≠ some (.branch children) := by
    intro children hnode
    cases hnode
  have hsets : ∀ event ∈ middle.acceptedAt ⟨false⟩ .lamp back .lampOn, event.kind = .set := by
    decide
  obtain ⟨hwriter, hversion⟩ := lastWriter_after SchemaSection.build_lamp ⟨false⟩ habove hhere
    (deleted ++ [first] ++ back)
  exact ⟨SchemaSection.build_lamp, habove, hhere, rfl, hwriter, hsets, rfl,
    hversion (deleted ++ [first]) back rfl hsets ⟨3⟩ rfl⟩

end Store

end PropertyTree
