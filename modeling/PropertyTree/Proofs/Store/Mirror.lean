import PropertyTree.Proofs.Keyed
import PropertyTree.Proofs.Store.Flattening
import PropertyTree.Proofs.Store.Run

/-! # Mirrors of a store

A mirror is a copy of the values of a store that is kept by hearing of changes alone. The changes
that a run reports lead from the values before it to the values after it: each of them tells the
value that a faithful mirror has at that moment, and one that differs from it.
-/

namespace PropertyTree

/-- Values by their paths. -/
abbrev Mirror := Dictionary Path Value

namespace Mirror

/-- The mirror after a notification: the path has the new value, or none. -/
def hear (mirror : Mirror) (notification : Notification) : Mirror :=
  match notification.new with
  | some value => mirror.insert notification.path value
  | none => mirror.erase notification.path

theorem get?_hear (mirror : Mirror) (notification : Notification) (path : Path) :
    (mirror.hear notification).get? path =
      if notification.path = path then notification.new else mirror.get? path := by
  rw [hear]
  cases notification.new with
  | none => exact mirror.get?_erase notification.path path
  | some value => exact mirror.get?_insert notification.path path value

theorem filterKeys_hear (mirror : Mirror) (notification : Notification) (test : Path → Bool) :
    (mirror.hear notification).filterKeys test =
      if test notification.path then hear (mirror.filterKeys test) notification
      else mirror.filterKeys test := by
  apply Dictionary.ext
  intro path
  rw [Dictionary.get?_filterKeys, get?_hear]
  by_cases htest : test notification.path = true
  · rw [if_pos htest, get?_hear, Dictionary.get?_filterKeys]
    by_cases hself : notification.path = path
    · rw [if_pos hself, if_pos hself, if_pos (hself ▸ htest)]
    · rw [if_neg hself, if_neg hself]
  · rw [if_neg htest, Dictionary.get?_filterKeys]
    by_cases hself : notification.path = path
    · rw [if_neg (hself ▸ htest), if_neg (hself ▸ htest)]
    · rw [if_neg hself]

/-- Notifications lead from one mirror to another: each tells the value that the mirror then has,
and another one in its place. -/
inductive Follows : Mirror → List Notification → Mirror → Prop
  | nil (mirror : Mirror) : Follows mirror [] mirror
  | cons {mirror after : Mirror} {notification : Notification} {rest : List Notification} :
      notification.old = mirror.get? notification.path → notification.old ≠ notification.new →
      Follows (mirror.hear notification) rest after → Follows mirror (notification :: rest) after

namespace Follows

variable {mirror middle after : Mirror} {notifications front back : List Notification}

theorem append (hfront : Follows mirror front middle) (hback : Follows middle back after) :
    Follows mirror (front ++ back) after := by
  induction hfront with
  | nil mirror => exact hback
  | cons hold hnew _ ih => exact .cons hold hnew (ih hback)

theorem foldl_hear (h : Follows mirror notifications after) :
    notifications.foldl hear mirror = after := by
  induction h with
  | nil mirror => rfl
  | cons _ _ _ ih => exact ih

/-- Every notification tells what the mirror has when it is heard. -/
theorem old_eq (h : Follows mirror notifications after) {notification : Notification}
    (hsplit : notifications = front ++ notification :: back) :
    notification.old = (front.foldl hear mirror).get? notification.path ∧
      notification.old ≠ notification.new := by
  induction h generalizing front with
  | nil mirror => simp at hsplit
  | cons hold hnew _ ih =>
      cases front with
      | nil =>
          cases hsplit
          exact ⟨hold, hnew⟩
      | cons first front =>
          cases hsplit
          exact ih rfl

/-- A mirror of some of the paths need hear of these alone. -/
theorem filterKeys (h : Follows mirror notifications after) (test : Path → Bool) :
    Follows (mirror.filterKeys test) (notifications.filter fun notification =>
      test notification.path) (after.filterKeys test) := by
  induction h with
  | nil mirror => exact .nil _
  | @cons mirror after notification rest hold hnew _ ih =>
      rw [filterKeys_hear] at ih
      rw [List.filter_cons]
      by_cases htest : test notification.path = true
      · rw [if_pos htest] at ih ⊢
        refine .cons ?_ hnew ih
        rw [Dictionary.get?_filterKeys, if_pos htest]
        exact hold
      · rw [if_neg htest] at ih ⊢
        exact ih

end Follows

end Mirror

/-- What subscribers hear of events with these results. -/
def Report.told (results : List (Except Failure Outcome)) : List Notification :=
  (results.filterMap change?).map Change.notification

theorem Report.told_append (front back : List (Except Failure Outcome)) :
    told (front ++ back) = told front ++ told back := by
  rw [told, List.filterMap_append, List.map_append]
  rfl

namespace LeafMap

variable (options : Options) (schema : Schema) (isBranch : Bool) (map : LeafMap)

def values (map : LeafMap) : Mirror := map.mapValues (·.value)

theorem get?_values (path : Path) : map.values.get? path = map.value? path :=
  map.get?_mapValues _ path

theorem follows_write (path : Path) (value : Value) (incoming : Option Version) :
    Mirror.Follows map.values (Report.told [.ok (map.write path value incoming).2])
      (map.write path value incoming).1.values := by
  have hafter : ∀ other, (map.write path value incoming).1.values.get? other =
      if path = other then some value else map.values.get? other := by
    intro other
    rw [get?_values, get?_values, value?, write, Dictionary.get?_insert, value?]
    split <;> rfl
  by_cases hsame : map.value? path = some value
  · -- The version may be another one, which a mirror has no part of.
    have hvalues : (map.write path value incoming).1.values = map.values := by
      apply Dictionary.ext
      intro other
      rw [hafter]
      split
      next heq => rw [← heq, get?_values, hsame]
      next => rfl
    rw [hvalues, write, if_pos hsame]
    exact .nil _
  · have hvalues : (map.write path value incoming).1.values =
        map.values.hear ⟨path, map.value? path, some value⟩ := by
      apply Dictionary.ext
      intro other
      rw [hafter, Mirror.get?_hear]
    rw [hvalues, write, if_neg hsame]
    exact .cons (map.get?_values path).symm hsame (.nil _)

/-- What an event reports leads from the values before it to those after it. -/
theorem follows_apply (event : Event) :
    Mirror.Follows map.values (Report.told [(map.apply options schema isBranch event).2])
      (map.apply options schema isBranch event).1.values := by
  cases event with
  | set path value incoming =>
      rw [apply]
      rcases map.set_cases options schema isBranch path value incoming with
        ⟨result, hset, hnone⟩ | ⟨-, -, hset⟩
      · rw [hset, Report.told, List.filterMap_cons_none hnone]
        exact .nil _
      · rw [hset]
        exact map.follows_write path value incoming
  | delete path =>
      rw [apply, delete]
      split
      next => exact .nil _
      next =>
        cases hvalue : map.value? path with
        | none => exact .nil _
        | some value =>
            have hvalues : LeafMap.values (map.erase path) =
                map.values.hear ⟨path, some value, none⟩ := by
              apply Dictionary.ext
              intro other
              rw [get?_values, value?, Dictionary.get?_erase, Mirror.get?_hear, get?_values, value?]
              split <;> rfl
            simp only [hvalues]
            refine .cons ?_ (Option.some_ne_none value) (.nil _)
            rw [get?_values]
            exact hvalue.symm

end LeafMap

namespace Store

variable (options : Options) (schema : Schema)

/-- The values of a store by their paths. -/
def values (store : Store) : Mirror := store.flat.values

theorem follows_next (store : Store) (event : Event) :
    Mirror.Follows store.values (Report.told [store.answer options schema event])
      (store.next options schema event).values := by
  have hstep := store.flat.follows_apply options schema (store.isBranch event.path) event
  rw [store.flat_apply options schema event] at hstep
  exact hstep

/-- What is reported leads from the values before it to those after it. -/
theorem follows_law : RunLaw options schema fun before results after =>
    Mirror.Follows before.values (Report.told results) after.values where
  nil store := .nil _
  append hfront hback := by
    rw [Report.told_append]
    exact hfront.append hback
  next := follows_next options schema
  misreading store _ _ := .nil _

end Store

end PropertyTree
