import Mathlib.Data.List.Induction
import PropertyTree.Proofs.Store.Revision

/-! # What a run makes of one leaf

The laws of revising a leaf that the runs of a store rest on. Numbered sets commute, as long as
equal versions carry equal values. Any list of events has its full effect the first time: a delete
makes it forget the leaf it began with, and without a delete the version held in the end is no lower
than any of the list.
-/

namespace PropertyTree

namespace Version

theorem lt_iff {a b : Version} : a < b ↔ a.number.toNat < b.number.toNat :=
  UInt64.lt_iff_toNat_lt

theorem eq_iff {a b : Version} : a = b ↔ a.number.toNat = b.number.toNat := by
  rw [UInt64.toNat_inj]
  exact ⟨congrArg number, fun h => by cases a; cases b; cases h; rfl⟩

theorem lt_irrefl (a : Version) : ¬ a < a := by
  rw [lt_iff]
  omega

theorem lt_of_lt_of_not_lt {a b c : Version} (hab : a < b) (hcb : ¬ c < b) : a < c := by
  rw [lt_iff] at *
  omega

theorem lt_asymm {a b : Version} (hab : a < b) : ¬ b < a := by
  rw [lt_iff] at *
  omega

theorem not_lt_trans {a b c : Version} (hba : ¬ b < a) (hcb : ¬ c < b) : ¬ c < a := by
  rw [lt_iff] at *
  omega

theorem lt_or_eq_or_lt (a b : Version) : a < b ∨ a = b ∨ b < a := by
  rw [lt_iff, lt_iff, eq_iff]
  omega

end Version

/-- The version held is greater than the given one. -/
def Outranks (held : Option Leaf) (version : Version) : Prop :=
  ∃ current, held.map (·.version) = some (some current) ∧ version < current

theorem outranks_iff {held : Option Leaf} {current version : Version}
    (h : held.map (·.version) = some (some current)) :
    Outranks held version ↔ version < current := by
  simp [Outranks, h]

theorem outranks_some_iff {value : Value} {current version : Version} :
    Outranks (some ⟨value, some current⟩) version ↔ version < current := outranks_iff rfl

theorem Outranks.trans {held : Option Leaf} {low high : Version} (hlow : Outranks held low)
    (hhigh : ¬ Outranks held high) : low < high := by
  obtain ⟨current, hcurrent, hlt⟩ := hlow
  exact Version.lt_of_lt_of_not_lt hlt fun h => hhigh ⟨current, hcurrent, h⟩

namespace Event

variable {path : Path} {value other : Value} {n m : Version}

open Classical in
theorem revise_numbered (path : Path) (value : Value) (n : Version) (held : Option Leaf) :
    ((Event.set path value (some n)).revise held).1 =
      if Outranks held n then held else some ⟨value, some n⟩ := by
  cases held with
  | none =>
      rw [if_neg (by simp [Outranks])]
      rfl
  | some held =>
      obtain ⟨current, version⟩ := held
      cases version with
      | none =>
          rw [if_neg (by simp [Outranks]), revise_of_accepted rfl]
          rfl
      | some version =>
          rw [outranks_some_iff]
          split
          next hlt => rw [revise_of_refusal (by simp [Leaf.refusal?, hlt]; rfl)]
          next hlt =>
            rw [revise_of_accepted (by simp [Leaf.refusal?, hlt])]
            rfl

theorem revise_unnumbered (path : Path) (value : Value) (held : Option Leaf) :
    ((Event.set path value none).revise held).1 = some ⟨value, held.bind (·.version)⟩ := by
  cases held with
  | none => rfl
  | some held =>
      have haccepted : held.refusal? none = none := by
        cases hversion : held.version <;> simp [Leaf.refusal?, hversion]
      rw [revise_of_accepted haccepted]
      rfl

/-- Numbered sets of one path commute, as long as equal versions carry equal values. -/
theorem revise_comm (hagree : n = m → value = other) (held : Option Leaf) :
    ((Event.set path other (some m)).revise
        ((Event.set path value (some n)).revise held).1).1 =
      ((Event.set path value (some n)).revise
        ((Event.set path other (some m)).revise held).1).1 := by
  simp only [revise_numbered]
  by_cases hn : Outranks held n
  · by_cases hm : Outranks held m
    · simp [hn, hm]
    · have hlt : n < m := hn.trans hm
      simp [hn, hm, outranks_some_iff, hlt]
  · by_cases hm : Outranks held m
    · have hlt : m < n := hm.trans hn
      simp [hn, hm, outranks_some_iff, hlt]
    · simp only [if_neg hn, if_neg hm, outranks_some_iff]
      rcases Version.lt_or_eq_or_lt n m with hlt | rfl | hlt
      · simp [hlt, Version.lt_asymm hlt]
      · rw [hagree rfl]
      · simp [hlt, Version.lt_asymm hlt]

variable {options : Options} {schema : Schema}

variable (options schema)

/-- The leaf held after a list of events. -/
def advanceAll (events : List Event) (held : Option Leaf) : Option Leaf :=
  events.foldl (fun held event => event.advance options schema held) held

@[simp] theorem advanceAll_nil (held : Option Leaf) :
    advanceAll options schema [] held = held := rfl

@[simp] theorem advanceAll_cons (event : Event) (rest : List Event) (held : Option Leaf) :
    advanceAll options schema (event :: rest) held =
      advanceAll options schema rest (event.advance options schema held) := rfl

theorem advanceAll_append (front back : List Event) (held : Option Leaf) :
    advanceAll options schema (front ++ back) held =
      advanceAll options schema back (advanceAll options schema front held) :=
  List.foldl_append

/-- A delete that is admitted makes the run forget the leaf that it began with. -/
theorem advanceAll_of_delete {events : List Event} {path : Path} (hmem : .delete path ∈ events)
    (hadmitted : (Event.delete path).isAdmitted options schema = true)
    (held other : Option Leaf) :
    advanceAll options schema events held = advanceAll options schema events other := by
  obtain ⟨front, back, rfl⟩ := List.append_of_mem hmem
  have hforget : ∀ held, (Event.delete path).advance options schema held = none := by
    intro held
    rw [advance_of_admitted hadmitted]
    cases held <;> rfl
  rw [advanceAll_append, advanceAll_append, advanceAll_cons, advanceAll_cons, hforget, hforget]

/-- There is a leaf, and the event would not raise its version. -/
def Settled (event : Event) (held : Option Leaf) : Prop :=
  match event with
  | .set _ _ none => held.isSome
  | .set _ _ (some n) => ∃ current, held.map (·.version) = some (some current) ∧ ¬ current < n
  | .delete _ => False

variable {options schema} {event other : Event} {held after : Option Leaf}

/-- Whether an event is settled depends on the version held alone. -/
theorem Settled.congr (h : event.Settled held)
    (hversion : after.map (·.version) = held.map (·.version)) : event.Settled after := by
  cases event with
  | set path value version =>
      cases version with
      | none =>
          rw [Settled] at h ⊢
          rw [← Option.isSome_map, hversion, Option.isSome_map]
          exact h
      | some n => rwa [Settled, hversion]
  | delete path => exact h

theorem isSome_revise (hset : event.kind = .set) (held : Option Leaf) :
    (event.revise held).1.isSome := by
  cases event with
  | set path value version =>
      cases version with
      | none =>
          rw [revise_unnumbered]
          rfl
      | some n =>
          rw [revise_numbered]
          split
          next hout =>
            obtain ⟨current, hcurrent, _⟩ := hout
            rw [← Option.isSome_map, hcurrent]
            rfl
          next => rfl
  | delete path => cases hset

/-- A set is settled once it is done. -/
theorem settled_revise (hset : event.kind = .set) (held : Option Leaf) :
    event.Settled (event.revise held).1 := by
  cases event with
  | set path value version =>
      cases version with
      | none => exact isSome_revise hset held
      | some n =>
          rw [revise_numbered]
          split
          next hout =>
            obtain ⟨current, hcurrent, hlt⟩ := hout
            exact ⟨current, hcurrent, Version.lt_asymm hlt⟩
          next => exact ⟨n, rfl, Version.lt_irrefl n⟩
  | delete path => cases hset

/-- What is settled stays so under further sets. -/
theorem Settled.revise (h : event.Settled held) (hset : other.kind = .set) :
    event.Settled (other.revise held).1 := by
  cases event with
  | set path value version =>
      cases version with
      | none => exact isSome_revise hset held
      | some n =>
          obtain ⟨current, hcurrent, hle⟩ := h
          cases other with
          | set path' value' version' =>
              cases version' with
              | none =>
                  refine ⟨current, ?_, hle⟩
                  obtain ⟨leaf, rfl, hleaf⟩ := Option.map_eq_some_iff.mp hcurrent
                  rw [revise_unnumbered, Option.bind_some, hleaf]
                  rfl
              | some m =>
                  rw [revise_numbered]
                  split
                  next => exact ⟨current, hcurrent, hle⟩
                  next hout =>
                    rw [outranks_iff hcurrent] at hout
                    exact ⟨m, rfl, Version.not_lt_trans hle hout⟩
          | delete path' => cases hset
  | delete path => exact h.elim

theorem Settled.version_revise (h : event.Settled held) :
    (event.revise held).1.map (·.version) = held.map (·.version) := by
  cases event with
  | set path value version =>
      cases version with
      | none =>
          obtain ⟨leaf, rfl⟩ := Option.isSome_iff_exists.mp h
          rw [revise_unnumbered]
          rfl
      | some n =>
          obtain ⟨current, hcurrent, hle⟩ := h
          rw [revise_numbered]
          split
          next => rfl
          next hout =>
            rw [outranks_iff hcurrent] at hout
            rcases Version.lt_or_eq_or_lt n current with hlt | rfl | hlt
            · exact absurd hlt hout
            · exact hcurrent.symm
            · exact absurd hlt hle
  | delete path => exact h.elim

/-- No admitted event of the list is a delete. -/
def Keeping (options : Options) (schema : Schema) (events : List Event) : Prop :=
  ∀ event ∈ events, event.isAdmitted options schema = true → event.kind = .set

variable {events : List Event}

/-- Without deletes, all events are settled once they are done. -/
theorem settled_advanceAll (hkeep : Keeping options schema events) (held : Option Leaf) :
    ∀ event ∈ events, event.isAdmitted options schema = true →
      event.Settled (advanceAll options schema events held) := by
  induction events using List.reverseRecOn with
  | nil => simp
  | append_singleton front last ih =>
      have hfront : Keeping options schema front := fun event hmem =>
        hkeep event (List.mem_append_left _ hmem)
      intro event hmem hadmitted
      rw [advanceAll_append, advanceAll_cons, advanceAll_nil]
      by_cases hlast : last.isAdmitted options schema = true
      · have hset : last.kind = .set := hkeep last (by simp) hlast
        rw [advance_of_admitted hlast]
        rcases List.mem_append.mp hmem with hmem | hmem
        · exact (ih hfront event hmem hadmitted).revise hset
        · rw [List.mem_singleton.mp hmem]
          exact settled_revise hset _
      · rw [advance_of_not_admitted hlast]
        rcases List.mem_append.mp hmem with hmem | hmem
        · exact ih hfront event hmem hadmitted
        · rw [List.mem_singleton.mp hmem] at hadmitted
          exact absurd hadmitted hlast

/-- Settled events keep the version held. -/
theorem version_advanceAll (hsettled : ∀ event ∈ events,
      event.isAdmitted options schema = true → event.Settled held) :
    (advanceAll options schema events held).map (·.version) = held.map (·.version) := by
  induction events generalizing held with
  | nil => rfl
  | cons event rest ih =>
      have hversion : (event.advance options schema held).map (·.version) =
          held.map (·.version) := by
        by_cases hadmitted : event.isAdmitted options schema = true
        · rw [advance_of_admitted hadmitted]
          exact (hsettled event List.mem_cons_self hadmitted).version_revise
        · rw [advance_of_not_admitted hadmitted]
      rw [advanceAll_cons, ih, hversion]
      intro other hmem hother
      exact (hsettled other (List.mem_cons_of_mem _ hmem) hother).congr hversion

/-- A set writes the same once more onto any leaf of the version that it left behind, unless it was
refused. -/
theorem revise_again (hset : event.kind = .set)
    (hversion : after.map (·.version) = (event.revise held).1.map (·.version)) :
    (event.revise after).1 = (event.revise held).1 ∨ (event.revise held).1 = held := by
  cases event with
  | set path value version =>
      cases version with
      | none =>
          rw [revise_unnumbered] at hversion
          obtain ⟨leaf, rfl, hleaf⟩ := Option.map_eq_some_iff.mp hversion
          left
          rw [revise_unnumbered, revise_unnumbered, Option.bind_some, hleaf]
      | some n =>
          rw [revise_numbered] at hversion
          simp only [revise_numbered]
          by_cases hout : Outranks held n
          · exact Or.inr (if_pos hout)
          · rw [if_neg hout] at hversion
            have hin : ¬ Outranks after n := by
              rw [outranks_iff hversion]
              exact Version.lt_irrefl n
            exact Or.inl (by rw [if_neg hin, if_neg hout])
  | delete path => cases hset

theorem advanceAll_idem_of_keeping (hkeep : Keeping options schema events)
    (held : Option Leaf) :
    advanceAll options schema events (advanceAll options schema events held) =
      advanceAll options schema events held := by
  -- By induction on the last event, since it decides what the run leaves behind. To that leaf the
  -- events before it are settled, so the second time they only rewrite its value.
  induction events using List.reverseRecOn with
  | nil => rfl
  | append_singleton front last ih =>
      have hfront : Keeping options schema front := fun event hmem =>
        hkeep event (List.mem_append_left _ hmem)
      have hsettled := settled_advanceAll hkeep held
      simp only [advanceAll_append, advanceAll_cons, advanceAll_nil] at hsettled ⊢
      by_cases hlast : last.isAdmitted options schema = true
      · have hset : last.kind = .set := hkeep last (by simp) hlast
        simp only [advance_of_admitted hlast] at hsettled ⊢
        have hversion := version_advanceAll fun event hmem =>
          hsettled event (List.mem_append_left _ hmem)
        rcases revise_again hset hversion with hagain | hrefused
        · exact hagain
        · rw [hrefused, ih hfront, hrefused]
      · simp only [advance_of_not_admitted hlast]
        exact ih hfront

/-- A run has its full effect on a leaf the first time. -/
theorem advanceAll_idem (events : List Event) (held : Option Leaf) :
    advanceAll options schema events (advanceAll options schema events held) =
      advanceAll options schema events held := by
  by_cases hkeep : Keeping options schema events
  · exact advanceAll_idem_of_keeping hkeep held
  · simp only [Keeping, not_forall] at hkeep
    obtain ⟨event, hmem, hadmitted, hkind⟩ := hkeep
    -- With a delete, what the run began with does not matter.
    cases event with
    | set path value version => exact absurd rfl hkind
    | delete path => exact advanceAll_of_delete options schema hmem hadmitted _ _

end Event

end PropertyTree
