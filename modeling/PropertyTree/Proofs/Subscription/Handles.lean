import Mathlib.Algebra.BigOperators.Group.List.Basic
import Mathlib.Data.List.Nodup
import PropertyTree.Proofs.Path.Above
import PropertyTree.Subscription.Registry

/-! # Handles

A registry is sound if its handles are all issued and each is at one place, once. Subscribing puts a
fresh handle at the end of the subscriptions on a path, unsubscribing drops some, and neither moves
any. A handle that is dropped never comes back.
-/

namespace PropertyTree

namespace Registry

variable {registry : Registry}

theorem on_subscribe (registry : Registry) (path other : Path) (script : Script) :
    (registry.subscribe path script).1.on other =
      registry.on other ++ if path = other then [⟨registry.nextHandle, script⟩] else [] := by
  rw [subscribe, on, Dictionary.get?_insert]
  split
  next heq =>
    subst heq
    rfl
  next => rw [List.append_nil, on]

theorem mem_on_subscribe {path other : Path} {script : Script} {subscription : Subscription} :
    subscription ∈ (registry.subscribe path script).1.on other ↔
      subscription ∈ registry.on other ∨
        path = other ∧ subscription = ⟨registry.nextHandle, script⟩ := by
  rw [on_subscribe, List.mem_append]
  split
  next heq => simp [heq]
  next hne => simp [hne]

theorem nextHandle_unsubscribe (registry : Registry) (handle : Nat) :
    (registry.unsubscribe handle).1.nextHandle = registry.nextHandle := by
  rw [unsubscribe]
  split <;> rfl

/-- The subscription with this handle stands on the path. -/
def Lives (registry : Registry) (handle : Nat) (path : Path) : Prop :=
  ∃ subscription ∈ registry.on path, subscription.handle = handle

theorem mem_on_iff {path : Path} {subscription : Subscription} :
    subscription ∈ registry.on path ↔
      ∃ subscriptions, (path, subscriptions) ∈ registry.byPath.entries ∧
        subscription ∈ subscriptions := by
  simp only [← Dictionary.get?_eq_some_iff, on]
  cases registry.byPath.get? path <;> simp

theorem on_of_mem_entries {entry : Path × List Subscription}
    (h : entry ∈ registry.byPath.entries) : registry.on entry.1 = entry.2 := by
  rw [on, registry.byPath.get?_eq_some_iff.mpr h, Option.getD_some]

/-- A single subscription with this handle is gone. Those around it stand as before, and so do those
on other paths. -/
def Drops (before : Registry) (handle : Nat) (after : Registry) : Prop :=
  ∃ path front subscription back, subscription.handle = handle ∧
    before.on path = front ++ subscription :: back ∧ after.on path = front ++ back ∧
    ∀ other, other ≠ path → after.on other = before.on other

theorem drops_of_found {handle : Nat} (hfound : (registry.unsubscribe handle).2 = true) :
    registry.Drops handle (registry.unsubscribe handle).1 := by
  rw [unsubscribe] at hfound ⊢
  split at hfound
  next => cases hfound
  next path subscriptions hfind =>
    have hany := List.find?_some hfind
    obtain ⟨given, hgiven, hhandle⟩ := List.any_eq_true.mp hany
    obtain ⟨subscription, front, back, _, hsubscription, hlist, hleft⟩ :=
      List.exists_of_eraseP (p := (·.handle = handle)) hgiven hhandle
    refine ⟨path, front, subscription, back, of_decide_eq_true hsubscription, ?_, ?_, ?_⟩
    · rw [on_of_mem_entries (List.mem_of_find?_eq_some hfind)]
      exact hlist
    · simp only [without, hleft, on]
      split
      next hempty =>
        rw [Dictionary.get?_erase, if_pos rfl, List.isEmpty_iff.mp hempty]
        rfl
      next => rw [Dictionary.get?_insert, if_pos rfl, Option.getD_some]
    · intro other hother
      simp only [on]
      split
      next => rw [Dictionary.get?_erase, if_neg hother.symm]
      next => rw [Dictionary.get?_insert, if_neg hother.symm]

theorem unsubscribe_of_not_found {handle : Nat}
    (hmissed : (registry.unsubscribe handle).2 = false) :
    (registry.unsubscribe handle).1 = registry := by
  rw [unsubscribe] at hmissed ⊢
  split at hmissed
  next => rfl
  next => cases hmissed

/-- Unsubscribing finds the handles that stand on a path. -/
theorem unsubscribe_found_iff {handle : Nat} :
    (registry.unsubscribe handle).2 = true ↔ ∃ path, registry.Lives handle path := by
  constructor
  · intro hfound
    obtain ⟨path, front, subscription, back, hhandle, hlist, _⟩ := drops_of_found hfound
    exact ⟨path, subscription, hlist ▸ List.mem_append_right _ List.mem_cons_self, hhandle⟩
  · rintro ⟨path, subscription, hmem, rfl⟩
    obtain ⟨subscriptions, hentry, hmem⟩ := mem_on_iff.mp hmem
    rw [unsubscribe]
    split
    next hnone =>
      have hany := List.find?_eq_none.mp hnone _ hentry
      exact absurd (List.any_eq_true.mpr ⟨subscription, hmem, decide_eq_true rfl⟩) hany
    next => rfl

/-- Unsubscribing leaves on each path some of its subscriptions, in their order. -/
theorem on_unsubscribe_sublist (registry : Registry) (handle : Nat) (other : Path) :
    ((registry.unsubscribe handle).1.on other).Sublist (registry.on other) := by
  cases hfound : (registry.unsubscribe handle).2 with
  | false => rw [unsubscribe_of_not_found hfound]
  | true =>
      obtain ⟨path, front, subscription, back, _, hlist, hleft, hothers⟩ :=
        drops_of_found hfound
      by_cases hself : other = path
      · subst hself
        rw [hlist, hleft]
        exact List.Sublist.append_left (List.sublist_cons_self _ _) _
      · rw [hothers other hself]

/-- The number of subscriptions on just this path that have this handle. -/
def occurrences (registry : Registry) (handle : Nat) (path : Path) : Nat :=
  (registry.on path).countP (·.handle = handle)

theorem lives_iff_occurrences_pos {handle : Nat} {path : Path} :
    registry.Lives handle path ↔ 0 < registry.occurrences handle path := by
  rw [Lives, occurrences, List.countP_pos_iff]
  simp

theorem occurrences_unsubscribe_le (registry : Registry) (target handle : Nat) (path : Path) :
    (registry.unsubscribe target).1.occurrences handle path ≤
      registry.occurrences handle path :=
  (registry.on_unsubscribe_sublist target path).countP_le

theorem occurrences_subscribe_of_ne {handle : Nat} (path other : Path) (script : Script)
    (hissued : handle ≠ registry.nextHandle) :
    (registry.subscribe path script).1.occurrences handle other =
      registry.occurrences handle other := by
  rw [occurrences, on_subscribe, List.countP_append, occurrences]
  split
  next => simp [Ne.symm hissued]
  next => rw [List.countP_nil, Nat.add_zero]

/-- Every subscription has a handle of its own, and the handles to come are new. -/
structure Sound (registry : Registry) : Prop where
  issued : ∀ path, ∀ subscription ∈ registry.on path, subscription.handle < registry.nextHandle
  once : ∀ path, ((registry.on path).map (·.handle)).Nodup
  apart : ∀ left right, ∀ first ∈ registry.on left, ∀ second ∈ registry.on right,
    first.handle = second.handle → left = right

namespace Sound

theorem empty : Registry.empty.Sound := by
  refine ⟨?_, ?_, ?_⟩
  · intro path subscription hmem
    cases hmem
  · intro path
    exact List.nodup_nil
  · intro left right first hfirst
    cases hfirst

theorem subscribe (h : registry.Sound) (path : Path) (script : Script) :
    (registry.subscribe path script).1.Sound := by
  refine ⟨?_, ?_, ?_⟩
  · intro other subscription hmem
    rcases mem_on_subscribe.mp hmem with hold | ⟨_, rfl⟩
    · exact Nat.lt_succ_of_lt (h.issued other subscription hold)
    · exact Nat.lt_succ_self registry.nextHandle
  · intro other
    rw [on_subscribe, List.map_append]
    split
    next =>
      refine (h.once other).append (List.nodup_singleton _) ?_
      intro handle hold hnew
      obtain ⟨subscription, hsubscription, rfl⟩ := List.mem_map.mp hold
      exact Nat.ne_of_lt (h.issued other subscription hsubscription) (List.mem_singleton.mp hnew)
    next => simpa using h.once other
  · intro left right first hfirst second hsecond heq
    -- The fresh handle is above all that are issued, so no old one equals it.
    rcases mem_on_subscribe.mp hfirst with hfirst | ⟨hleft, rfl⟩
    · rcases mem_on_subscribe.mp hsecond with hsecond | ⟨_, rfl⟩
      · exact h.apart left right first hfirst second hsecond heq
      · exact absurd heq (Nat.ne_of_lt (h.issued left first hfirst))
    · rcases mem_on_subscribe.mp hsecond with hsecond | ⟨hright, _⟩
      · exact absurd heq.symm (Nat.ne_of_lt (h.issued right second hsecond))
      · exact hleft.symm.trans hright

theorem unsubscribe (h : registry.Sound) (handle : Nat) :
    (registry.unsubscribe handle).1.Sound := by
  have hsub := fun path => registry.on_unsubscribe_sublist handle path
  refine ⟨?_, ?_, ?_⟩
  · intro path subscription hmem
    rw [nextHandle_unsubscribe]
    exact h.issued path subscription ((hsub path).mem hmem)
  · intro path
    exact (h.once path).sublist ((hsub path).map _)
  · intro left right first hfirst second hsecond
    exact h.apart left right first ((hsub left).mem hfirst) second ((hsub right).mem hsecond)

/-- In a sound registry a subscription that stands on a path stands there once and nowhere else. -/
theorem occurrences_of_lives (h : registry.Sound) {handle : Nat} {path : Path}
    (hlives : registry.Lives handle path) (other : Path) :
    registry.occurrences handle other = if other = path then 1 else 0 := by
  obtain ⟨subscription, hmem, rfl⟩ := hlives
  split
  next heq =>
    subst heq
    have hcount := List.count_eq_one_of_mem (h.once other) (List.mem_map_of_mem hmem)
    rw [List.count, List.countP_map] at hcount
    rw [occurrences, ← hcount]
    exact List.countP_congr fun _ _ => by simp
  next hne =>
    rw [occurrences, List.countP_eq_zero]
    intro found hfound heq
    exact hne (h.apart other path found hfound subscription hmem (of_decide_eq_true heq))

end Sound

theorem mem_targets_iff {leaf : Path} {subscription : Subscription} :
    subscription ∈ registry.targets leaf ↔
      ∃ path : Path, path.LeadsTo leaf ∧ subscription ∈ registry.on path := by
  rw [targets, List.mem_flatMap]
  simp only [Path.mem_ancestors_append_self_iff]

/-- A handle that stands on one path alone hears of a leaf as often as it stands there if the path
leads to the leaf, and else not at all. -/
theorem countP_targets {handle : Nat} {path : Path}
    (helsewhere : ∀ other, other ≠ path → registry.occurrences handle other = 0) (leaf : Path) :
    (registry.targets leaf).countP (·.handle = handle) =
      if path.LeadsTo leaf then registry.occurrences handle path else 0 := by
  have hsum : (registry.targets leaf).countP (·.handle = handle) =
      ((leaf.ancestors ++ [leaf]).map (registry.occurrences handle)).sum := by
    rw [targets, List.countP_flatMap]
    rfl
  rw [hsum, List.sum_map_eq_nsmul_single path _ fun other hne _ => helsewhere other hne,
    leaf.nodup_ancestors_append_self.count]
  simp only [Path.mem_ancestors_append_self_iff]
  split
  next => rw [one_nsmul]
  next => rw [zero_nsmul]

end Registry

end PropertyTree
