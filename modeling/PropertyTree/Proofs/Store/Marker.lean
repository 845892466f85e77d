import PropertyTree.Proofs.Store.Flattening
import PropertyTree.Proofs.Store.LastWriter

/-! # Versions held along a run

Where sets without a version are refused, no run brings in a leaf without one: a leaf that has none
in the end has been there from the start, untouched. A version that is held is never lowered, and
only a delete takes it away.
-/

namespace PropertyTree

/-- The changes at a path that results report, in order. -/
def Report.changesAt (path : Path) (results : List (Except Failure Outcome)) : List Change :=
  (results.filterMap change?).filter (·.path = path)

/-- Nobody has deleted the leaf at the path, by these results. -/
def Report.NoneDeleted (path : Path) (results : List (Except Failure Outcome)) : Prop :=
  ∀ change ∈ changesAt path results, change.new ≠ none

namespace Report

variable {path : Path} {change : Change}

theorem changesAt_append (path : Path) (front back : List (Except Failure Outcome)) :
    changesAt path (front ++ back) = changesAt path front ++ changesAt path back := by
  rw [changesAt, List.filterMap_append, List.filter_append]
  rfl

theorem noneDeleted_append {front back : List (Except Failure Outcome)} :
    NoneDeleted path (front ++ back) ↔ NoneDeleted path front ∧ NoneDeleted path back := by
  rw [NoneDeleted, changesAt_append, List.forall_mem_append]
  rfl

theorem changesAt_of_change?_eq_none {result : Except Failure Outcome}
    (h : change? result = none) : changesAt path [result] = [] := by
  rw [changesAt, List.filterMap_cons_none h]
  rfl

theorem changesAt_applied :
    changesAt path [.ok (.applied change)] = if change.path = path then [change] else [] := by
  by_cases h : change.path = path <;> simp [changesAt, change?, Outcome.change?, h]

end Report

/-- What becomes of the leaf at a path where sets without a version are refused: in the end it has
no version only if it has been so from the start, untouched, and until it is deleted a version held
does not go down. -/
structure Guarded (path : Path) (before : Option Leaf) (results : List (Except Failure Outcome))
    (after : Option Leaf) : Prop where
  untouched : ∀ value, after = some ⟨value, none⟩ →
    before = some ⟨value, none⟩ ∧ Report.changesAt path results = []
  kept : ∀ n, before.bind (·.version) = some n → Report.NoneDeleted path results →
    ∃ m, after.bind (·.version) = some m ∧ n ≤ m

namespace Guarded

variable {path : Path} {before middle after : Option Leaf}
  {results front back : List (Except Failure Outcome)}

theorem of_eq (h : Report.changesAt path results = []) (hsame : after = before) :
    Guarded path before results after := by
  subst hsame
  exact ⟨fun _ hbefore => ⟨hbefore, h⟩, fun n hn _ => ⟨n, hn, n.le_refl⟩⟩

theorem append (hfront : Guarded path before front middle)
    (hback : Guarded path middle back after) : Guarded path before (front ++ back) after := by
  constructor
  · intro value hafter
    obtain ⟨hmiddle, hlater⟩ := hback.untouched value hafter
    obtain ⟨hbefore, hearlier⟩ := hfront.untouched value hmiddle
    refine ⟨hbefore, ?_⟩
    rw [Report.changesAt_append, hearlier, hlater]
    rfl
  · intro n hn hdeleted
    obtain ⟨hearlier, hlater⟩ := Report.noneDeleted_append.mp hdeleted
    obtain ⟨m, hm, hnm⟩ := hfront.kept n hn hearlier
    obtain ⟨k, hk, hmk⟩ := hback.kept m hm hlater
    exact ⟨k, hk, Version.le_trans hnm hmk⟩

end Guarded

namespace LeafMap

variable {options : Options} (schema : Schema) (isBranch : Bool) (map : LeafMap) (path : Path)

theorem le_of_staleness?_eq_none {n m : Version} (h : map.staleness? path (some m) = none)
    (hn : map.version? path = some n) : n ≤ m := by
  rw [← Version.not_lt_iff]
  intro hlt
  simp [staleness?, hn, hlt] at h

theorem changesAt_write_of_ne {target : Path} (hne : target ≠ path) (value : Value)
    (incoming : Option Version) :
    Report.changesAt path [.ok (map.write target value incoming).2] = [] := by
  rw [write]
  split
  next => exact Report.changesAt_of_change?_eq_none rfl
  next => rw [Report.changesAt_applied, if_neg hne]

/-- A version is written over none or one that is no greater. -/
theorem guarded_write {target : Path} {m : Version}
    (hfresh : map.staleness? target (some m) = none) (value : Value) :
    Guarded path (map.get? path) [.ok (map.write target value (some m)).2]
      ((map.write target value (some m)).1.get? path) := by
  have hget : (map.write target value (some m)).1.get? path =
      if target = path then some ⟨value, some m⟩ else map.get? path := by
    rw [write, Dictionary.get?_insert]
    rfl
  by_cases htarget : target = path
  · subst htarget
    rw [hget, if_pos rfl]
    constructor
    · intro _ hafter
      cases hafter
    · intro n hn _
      exact ⟨m, rfl, map.le_of_staleness?_eq_none target hfresh hn⟩
  · rw [hget, if_neg htarget]
    exact .of_eq (map.changesAt_write_of_ne path htarget value (some m)) rfl

theorem guarded_delete (target : Path) :
    Guarded path (map.get? path) [(map.delete schema target).2]
      ((map.delete schema target).1.get? path) := by
  rw [delete]
  split
  next => exact .of_eq (Report.changesAt_of_change?_eq_none rfl) rfl
  next =>
    split
    next => exact .of_eq (Report.changesAt_of_change?_eq_none rfl) rfl
    next value _ =>
      rw [Dictionary.get?_erase]
      by_cases htarget : target = path
      · rw [if_pos htarget]
        constructor
        · intro _ hafter
          cases hafter
        · intro n _ hdeleted
          rw [Report.NoneDeleted, Report.changesAt_applied, if_pos htarget] at hdeleted
          exact absurd rfl (hdeleted _ (List.mem_singleton_self _))
      · rw [if_neg htarget]
        exact .of_eq (by rw [Report.changesAt_applied, if_neg htarget]) rfl

theorem guarded_apply (hreject : options.rejectUnversioned = true) (event : Event) :
    Guarded path (map.get? path) [(map.apply options schema isBranch event).2]
      ((map.apply options schema isBranch event).1.get? path) := by
  cases event with
  | set target value incoming =>
      rw [apply]
      rcases set_cases options schema isBranch map target value incoming with
        ⟨result, hset, hnone⟩ | ⟨hversioned, hfresh, hset⟩
      · rw [hset]
        exact .of_eq (Report.changesAt_of_change?_eq_none hnone) rfl
      · rw [hset]
        -- Only here is it needed that sets without a version are refused.
        cases incoming with
        | none => exact absurd ⟨rfl, hreject⟩ hversioned
        | some m => exact map.guarded_write path hfresh value
  | delete target => exact map.guarded_delete schema path target

end LeafMap

/-- Under refusal of sets without a version, every run guards the leaf at a path. -/
theorem Store.guarded_law {options : Options} (hreject : options.rejectUnversioned = true)
    (schema : Schema) (path : Path) : RunLaw options schema fun before results after =>
      Guarded path (before.leaf? path) results (after.leaf? path) where
  nil store := .of_eq rfl rfl
  append hfront hback := hfront.append hback
  next store event := by
    have hstep := store.flat.guarded_apply schema (store.isBranch event.path) path hreject event
    rw [store.flat_apply options schema event, get?_flat, get?_flat] at hstep
    exact hstep
  misreading store _ _ := .of_eq (Report.changesAt_of_change?_eq_none rfl) rfl

end PropertyTree
