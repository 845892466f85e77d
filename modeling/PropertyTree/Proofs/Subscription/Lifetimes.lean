import Mathlib.Algebra.BigOperators.Finprod
import PropertyTree.Proofs.Schema.PrefixFree
import PropertyTree.Proofs.Subscription.Requests

/-! # Lifetimes of handles

The handles that a registry makes are the numbers from zero on, each made once. A handle lives from
the request that makes it to the first one that ends it, at one place among the subscriptions on one
path. This is so at every moment of a run, also while subscribers are being called, since whatever
they do comes to requests as well.
-/

namespace PropertyTree

namespace Registry

/-- The handle that was made. -/
def Deed.made? : Deed → Option Nat
  | .made handle => some handle
  | .ended _ | .missed _ => none

/-- The handle whose subscription was ended. -/
def Deed.ended? : Deed → Option Nat
  | .ended handle => some handle
  | .made _ | .missed _ => none

/-- The handles that were made, in order. -/
def made (deeds : List Deed) : List Nat := deeds.filterMap Deed.made?

/-- The handles whose subscriptions were ended, in order. -/
def ended (deeds : List Deed) : List Nat := deeds.filterMap Deed.ended?

/-- The handles that were made and not ended. -/
def live (deeds : List Deed) : List Nat :=
  (made deeds).filter fun handle => handle ∉ ended deeds

theorem made_snoc (deeds : List Deed) (deed : Deed) :
    made (deeds ++ [deed]) = made deeds ++ deed.made?.toList := by
  rw [made, List.filterMap_append]
  cases deed <;> rfl

theorem ended_snoc (deeds : List Deed) (deed : Deed) :
    ended (deeds ++ [deed]) = ended deeds ++ deed.ended?.toList := by
  rw [ended, List.filterMap_append]
  cases deed <;> rfl

theorem mem_live_iff {deeds : List Deed} {handle : Nat} :
    handle ∈ live deeds ↔ handle ∈ made deeds ∧ handle ∉ ended deeds := by
  simp [live]

theorem mem_subscriptions_iff {registry : Registry} {subscription : Subscription} :
    subscription ∈ registry.subscriptions ↔ ∃ path, subscription ∈ registry.on path := by
  simp only [mem_on_iff, subscriptions, List.mem_flatMap, Prod.exists]

/-- The subscriptions are counted path by path. -/
theorem count_eq_finsum (registry : Registry) :
    registry.count = ∑ᶠ path, registry.countOn path := by
  have hkeys : registry.byPath.keys.Nodup :=
    List.Pairwise.imp KeyOrder.ne_of_lt (List.pairwise_map.mpr registry.byPath.ordered)
  have hsupport :
      Function.support registry.countOn ⊆ (registry.byPath.keys.toFinset : Set Path) := by
    intro path hpath
    obtain ⟨subscription, hmem⟩ := List.exists_mem_of_length_pos (Nat.pos_of_ne_zero hpath)
    obtain ⟨subscriptions, hentry, _⟩ := mem_on_iff.mp hmem
    exact List.mem_toFinset.mpr (List.mem_map_of_mem hentry)
  rw [finsum_eq_sum_of_support_subset _ hsupport, List.sum_toFinset _ hkeys, Dictionary.keys,
    List.map_map, count, subscriptions, List.length_flatMap]
  refine congrArg List.sum (List.map_congr_left ?_)
  intro entry hentry
  rw [Function.comp_apply, countOn, on_of_mem_entries hentry]

/-- The registry is what the deeds have left, each list in the order of making. -/
structure Accounts (registry : Registry) (deeds : List Deed) : Prop where
  sound : registry.Sound
  ranked : ∀ path, (registry.on path).Pairwise fun first second => first.handle < second.handle
  filled : ∀ path subscriptions, registry.byPath.get? path = some subscriptions →
    subscriptions ≠ []
  made : made deeds = List.range registry.nextHandle
  ended : ∀ handle ∈ ended deeds, handle < registry.nextHandle
  lives : ∀ handle, (∃ path, registry.Lives handle path) ↔ handle ∈ live deeds

theorem lives_subscribe_iff {registry : Registry} {path other : Path} {script : Script}
    {handle : Nat} :
    (registry.subscribe path script).1.Lives handle other ↔
      registry.Lives handle other ∨ path = other ∧ registry.nextHandle = handle := by
  simp only [Lives, mem_on_subscribe]
  constructor
  · rintro ⟨subscription, hold | ⟨hpath, rfl⟩, hhandle⟩
    · exact Or.inl ⟨subscription, hold, hhandle⟩
    · exact Or.inr ⟨hpath, hhandle⟩
  · rintro (⟨subscription, hold, hhandle⟩ | ⟨hpath, hhandle⟩)
    · exact ⟨subscription, Or.inl hold, hhandle⟩
    · exact ⟨_, Or.inr ⟨hpath, rfl⟩, hhandle⟩

/-- In a sound registry, unsubscribing ends the life of the handle and of no other. -/
theorem Sound.lives_unsubscribe_iff {registry : Registry} (h : registry.Sound)
    {target handle : Nat} {path : Path} :
    (registry.unsubscribe target).1.Lives handle path ↔
      registry.Lives handle path ∧ handle ≠ target := by
  cases hfound : (registry.unsubscribe target).2 with
  | false =>
      rw [unsubscribe_of_not_found hfound]
      refine (and_iff_left_of_imp ?_).symm
      rintro hlives rfl
      rw [unsubscribe_found_iff.mpr ⟨path, hlives⟩] at hfound
      cases hfound
  | true =>
      obtain ⟨home, front, gone, back, rfl, hlist, hleft, hothers⟩ := drops_of_found hfound
      by_cases hhome : path = home
      · subst hhome
        have honce := h.once path
        rw [hlist, List.map_append, List.map_cons, List.nodup_middle, List.nodup_cons,
          ← List.map_append] at honce
        simp only [Lives, hleft, hlist]
        constructor
        · rintro ⟨subscription, hmem, rfl⟩
          refine ⟨⟨subscription, ?_, rfl⟩, ?_⟩
          · exact (List.Sublist.append_left (List.sublist_cons_self _ _) front).mem hmem
          · intro heq
            exact honce.1 (heq ▸ List.mem_map_of_mem hmem)
        · rintro ⟨⟨subscription, hmem, rfl⟩, hne⟩
          rw [List.mem_append, List.mem_cons, or_left_comm, ← List.mem_append] at hmem
          rcases hmem with rfl | hmem
          · exact absurd rfl hne
          · exact ⟨subscription, hmem, rfl⟩
      · simp only [Lives, hothers path hhome]
        refine (and_iff_left_of_imp ?_).symm
        rintro ⟨subscription, hmem, rfl⟩ heq
        have hgone : gone ∈ registry.on home := by simp [hlist]
        exact hhome (h.apart path home subscription hmem gone hgone heq)

namespace Accounts

variable {registry : Registry} {deeds : List Deed}

theorem empty : Accounts .empty [] := by
  refine ⟨.empty, ?_, ?_, rfl, ?_, ?_⟩
  · intro path
    exact List.Pairwise.nil
  · intro path subscriptions hget
    cases hget
  · exact List.forall_mem_nil _
  · intro handle
    constructor
    · rintro ⟨path, subscription, hmem, _⟩
      cases hmem
    · intro hmem
      cases hmem

theorem subscribe (h : Accounts registry deeds) (path : Path) (script : Script) :
    Accounts (registry.subscribe path script).1 (deeds ++ [.made registry.nextHandle]) := by
  have hmade : Registry.made (deeds ++ [.made registry.nextHandle]) =
      Registry.made deeds ++ [registry.nextHandle] := made_snoc deeds _
  have hended : Registry.ended (deeds ++ [.made registry.nextHandle]) = Registry.ended deeds :=
    (ended_snoc deeds _).trans (List.append_nil _)
  refine ⟨h.sound.subscribe path script, ?_, ?_, ?_, ?_, ?_⟩
  · intro other
    rw [on_subscribe]
    split
    next =>
      refine List.pairwise_append.mpr ⟨h.ranked other, List.pairwise_singleton _ _, ?_⟩
      intro old hold new hnew
      rw [List.mem_singleton.mp hnew]
      exact h.sound.issued other old hold
    next =>
      rw [List.append_nil]
      exact h.ranked other
  · intro other subscriptions hget
    rw [Registry.subscribe, Dictionary.get?_insert] at hget
    split at hget
    next =>
      cases hget
      exact List.append_ne_nil_of_right_ne_nil _ (List.cons_ne_nil _ _)
    next => exact h.filled other subscriptions hget
  · rw [hmade, h.made, ← List.range_succ]
    rfl
  · rw [hended]
    exact fun handle hmem => Nat.lt_succ_of_lt (h.ended handle hmem)
  · intro handle
    rw [mem_live_iff, hmade, hended, List.mem_append, List.mem_singleton, or_and_right,
      ← mem_live_iff, ← h.lives]
    simp only [lives_subscribe_iff, exists_or]
    refine or_congr_right ?_
    constructor
    · rintro ⟨_, _, rfl⟩
      exact ⟨rfl, fun hmem => Nat.lt_irrefl _ (h.ended _ hmem)⟩
    · rintro ⟨rfl, _⟩
      exact ⟨path, rfl, rfl⟩

theorem missed (h : Accounts registry deeds) (handle : Nat) :
    Accounts registry (deeds ++ [.missed handle]) := by
  have hmade : Registry.made (deeds ++ [.missed handle]) = Registry.made deeds :=
    (made_snoc deeds _).trans (List.append_nil _)
  have hended : Registry.ended (deeds ++ [.missed handle]) = Registry.ended deeds :=
    (ended_snoc deeds _).trans (List.append_nil _)
  refine ⟨h.sound, h.ranked, h.filled, hmade ▸ h.made, hended ▸ h.ended, ?_⟩
  intro other
  rw [h.lives, mem_live_iff, mem_live_iff, hmade, hended]

theorem filled_unsubscribe (h : Accounts registry deeds) (target : Nat) (path : Path)
    (subscriptions : List Subscription)
    (hget : (registry.unsubscribe target).1.byPath.get? path = some subscriptions) :
    subscriptions ≠ [] := by
  rw [Registry.unsubscribe] at hget
  split at hget
  next => exact h.filled path subscriptions hget
  next home found hfind =>
    dsimp only at hget
    split at hget
    next =>
      rw [Dictionary.get?_erase] at hget
      split at hget
      next => cases hget
      next => exact h.filled path subscriptions hget
    next hleft =>
      rw [Dictionary.get?_insert] at hget
      split at hget
      next =>
        cases hget
        rwa [List.isEmpty_iff] at hleft
      next => exact h.filled path subscriptions hget

theorem ended_unsubscribe (h : Accounts registry deeds) {target : Nat}
    (hfound : (registry.unsubscribe target).2 = true) :
    Accounts (registry.unsubscribe target).1 (deeds ++ [.ended target]) := by
  have hmade : Registry.made (deeds ++ [.ended target]) = Registry.made deeds :=
    (made_snoc deeds _).trans (List.append_nil _)
  have hended : Registry.ended (deeds ++ [.ended target]) = Registry.ended deeds ++ [target] :=
    ended_snoc deeds _
  refine ⟨h.sound.unsubscribe target, ?_, h.filled_unsubscribe target, ?_, ?_, ?_⟩
  · intro path
    exact (h.ranked path).sublist (registry.on_unsubscribe_sublist target path)
  · rw [hmade, nextHandle_unsubscribe, h.made]
  · rw [hended, nextHandle_unsubscribe, List.forall_mem_append, List.forall_mem_singleton]
    obtain ⟨path, subscription, hmem, rfl⟩ := unsubscribe_found_iff.mp hfound
    exact ⟨h.ended, h.sound.issued path subscription hmem⟩
  · intro handle
    simp only [h.sound.lives_unsubscribe_iff, exists_and_right]
    rw [h.lives, mem_live_iff, mem_live_iff, hmade, hended, List.mem_append, not_or, and_assoc,
      List.mem_singleton]

/-- Every request keeps the accounts. -/
theorem obey (h : Accounts registry deeds) (request : Request) :
    Accounts (registry.obey request).1 (deeds ++ [(registry.obey request).2]) := by
  cases request with
  | subscribe path script => exact h.subscribe path script
  | unsubscribe target =>
      rw [Registry.obey]
      cases hfound : (registry.unsubscribe target).2 with
      | true => exact h.ended_unsubscribe hfound
      | false =>
          rw [unsubscribe_of_not_found hfound]
          exact h.missed target

theorem obeyAll (h : Accounts registry deeds) (requests : List Request) :
    Accounts (registry.obeyAll requests).1 (deeds ++ (registry.obeyAll requests).2) := by
  induction requests generalizing registry deeds with
  | nil =>
      rw [Registry.obeyAll, List.append_nil]
      exact h
  | cons request rest ih =>
      have hrest := ih (h.obey request)
      rw [List.append_assoc] at hrest
      exact hrest

/-- The accounts of a registry that was empty at first. -/
theorem of_empty (requests : List Request) :
    Accounts (Registry.empty.obeyAll requests).1 (Registry.empty.obeyAll requests).2 :=
  empty.obeyAll requests

/-- A handle stands on one path at most. -/
theorem path_unique (h : Accounts registry deeds) {handle : Nat} {path other : Path}
    (hpath : registry.Lives handle path) (hother : registry.Lives handle other) : path = other := by
  obtain ⟨subscription, hmem, rfl⟩ := hpath
  obtain ⟨found, hfound, heq⟩ := hother
  exact h.sound.apart path other subscription hmem found hfound heq.symm

/-- There is one subscription for each handle that lives. -/
theorem count_eq_live (h : Accounts registry deeds) : registry.count = (live deeds).length := by
  have hlive : (live deeds).Nodup := by
    rw [live, h.made]
    exact List.nodup_range.filter _
  have hhandles : (registry.subscriptions.map (·.handle)).Nodup := by
    rw [subscriptions, List.map_flatMap, List.nodup_flatMap]
    constructor
    · intro entry hentry
      rw [← on_of_mem_entries hentry]
      exact h.sound.once entry.1
    · refine registry.byPath.ordered.imp_of_mem ?_
      intro first second hfirst hsecond hlt handle hmem hother
      obtain ⟨one, hone, rfl⟩ := List.mem_map.mp hmem
      obtain ⟨two, htwo, heq⟩ := List.mem_map.mp hother
      rw [← on_of_mem_entries hfirst] at hone
      rw [← on_of_mem_entries hsecond] at htwo
      exact KeyOrder.ne_of_lt hlt (h.sound.apart first.1 second.1 one hone two htwo heq.symm)
  have hperm : (registry.subscriptions.map (·.handle)).Perm (live deeds) := by
    rw [List.perm_ext_iff_of_nodup hhandles hlive]
    intro handle
    rw [← h.lives, List.mem_map]
    simp only [mem_subscriptions_iff, Lives]
    constructor
    · rintro ⟨subscription, ⟨path, hmem⟩, hhandle⟩
      exact ⟨path, subscription, hmem, hhandle⟩
    · rintro ⟨path, subscription, hmem, hhandle⟩
      exact ⟨subscription, ⟨path, hmem⟩, hhandle⟩
  rw [count, ← hperm.length_eq, List.length_map]

end Accounts

/-- What is asked of a registry from outside. -/
inductive Call where
  | subscribe (path : Path) (script : Script)
  | subscribeKey (key : String) (script : Script)
  | unsubscribe (handle : Nat)
  | notify (notification : Notification)

section Serve

variable (depth : Nat)

/-- The registry after a call, and the answers to the requests in it: the answer to the call, or
those that the called subscribers get. -/
def serve (registry : Registry) : Call → Registry × List Reply
  | .subscribe path script =>
    ((registry.subscribe path script).1, [.made (registry.subscribe path script).2])
  | .subscribeKey key script =>
    match registry.subscribeKey key script with
    | .ok (after, handle) => (after, [.made handle])
    | .error _ => (registry, [])
  | .unsubscribe handle =>
    ((registry.unsubscribe handle).1, [.found (registry.unsubscribe handle).2])
  | .notify notification =>
    let pass := registry.notify depth notification
    (pass.registry, pass.trace.filterMap TraceEntry.reply?)

/-- The registry after a run of calls, and all answers in order. -/
def serveAll (registry : Registry) : List Call → Registry × List Reply
  | [] => (registry, [])
  | call :: rest =>
    let later := serveAll (registry.serve depth call).1 rest
    (later.1, (registry.serve depth call).2 ++ later.2)

/-- The requests in a call. -/
def requestsIn (registry : Registry) : Call → List Request
  | .subscribe path script => [.subscribe path script]
  | .subscribeKey key script =>
    match Path.parse key with
    | .ok path => [.subscribe path script]
    | .error _ => []
  | .unsubscribe handle => [.unsubscribe handle]
  | .notify notification => passRequests depth registry notification

/-- The requests in a run of calls, also those of called subscribers. -/
def requestsOver (registry : Registry) : List Call → List Request
  | [] => []
  | call :: rest =>
    registry.requestsIn depth call ++ requestsOver (registry.serve depth call).1 rest

theorem serve_eq (registry : Registry) (call : Call) :
    registry.serve depth call = ((registry.obeyAll (registry.requestsIn depth call)).1,
      (registry.obeyAll (registry.requestsIn depth call)).2.map Deed.reply) := by
  cases call with
  | subscribe path script => rfl
  | subscribeKey key script =>
      rw [serve, requestsIn, subscribeKey]
      cases Path.parse key <;> rfl
  | unsubscribe handle =>
      rw [serve, requestsIn, ← reply_obey_unsubscribe]
      rfl
  | notify notification =>
      obtain ⟨hregistry, hreplies⟩ := issues_notify depth registry notification
      rw [serve, requestsIn, ← hregistry, ← hreplies]

theorem serveAll_eq (registry : Registry) (calls : List Call) :
    registry.serveAll depth calls = ((registry.obeyAll (registry.requestsOver depth calls)).1,
      (registry.obeyAll (registry.requestsOver depth calls)).2.map Deed.reply) := by
  induction calls generalizing registry with
  | nil => rfl
  | cons call rest ih =>
      rw [serveAll, requestsOver, obeyAll_append, ih, serve_eq, List.map_append]

end Serve

/-- The registry is just what the requests so far have left of it. -/
structure Orderly (registry : Registry) (deeds : List Deed) : Prop where
  /-- The handles that live are those that were made and not ended. -/
  lives : ∀ handle, (∃ path, registry.Lives handle path) ↔
    handle ∈ made deeds ∧ handle ∉ ended deeds
  apart : ∀ handle path other, registry.Lives handle path → registry.Lives handle other →
    path = other
  /-- No list is empty, and each stands in the order of its handles. -/
  lists : ∀ path subscriptions, registry.byPath.get? path = some subscriptions →
    subscriptions ≠ [] ∧ subscriptions.Pairwise (fun first second => first.handle < second.handle) ∧
      ∀ subscription ∈ subscriptions, subscription.handle < registry.nextHandle
  found : ∀ handle, (registry.unsubscribe handle).2 = true ↔
    handle ∈ made deeds ∧ handle ∉ ended deeds
  drops : ∀ handle, (registry.unsubscribe handle).2 = true →
    registry.Drops handle (registry.unsubscribe handle).1
  unchanged : ∀ handle, (registry.unsubscribe handle).2 = false →
    (registry.unsubscribe handle).1 = registry
  count : registry.count = (live deeds).length
  sum : registry.count = ∑ᶠ path, registry.countOn path

theorem Accounts.orderly {registry : Registry} {deeds : List Deed} (h : Accounts registry deeds) :
    registry.Orderly deeds where
  lives handle := (h.lives handle).trans mem_live_iff
  apart _ _ _ := h.path_unique
  lists path subscriptions hget := by
    have hon : registry.on path = subscriptions := by rw [on, hget, Option.getD_some]
    exact ⟨h.filled path subscriptions hget, hon ▸ h.ranked path, hon ▸ h.sound.issued path⟩
  found handle := unsubscribe_found_iff.trans ((h.lives handle).trans mem_live_iff)
  drops _ := drops_of_found
  unchanged _ := unsubscribe_of_not_found
  count := h.count_eq_live
  sum := registry.count_eq_finsum

/-- A run of calls comes to a course of requests, those of called subscribers included, however deep
passes nest. No handle is given twice in it, and at every moment the registry is in order. -/
theorem orderly_over_run (depth : Nat) (calls : List Call) :
    let requests := Registry.empty.requestsOver depth calls
    let course := Registry.empty.obeyAll requests
    Registry.empty.serveAll depth calls = (course.1, course.2.map Deed.reply) ∧
      (made course.2).Nodup ∧
      ∀ moment, (Registry.empty.obeyAll (requests.take moment)).1.Orderly
        (course.2.take moment) := by
  intro requests course
  refine ⟨serveAll_eq depth .empty calls, ?_, ?_⟩
  · rw [(Accounts.of_empty requests).made]
    exact List.nodup_range
  · intro moment
    rw [take_obeyAll]
    exact (Accounts.of_empty (requests.take moment)).orderly

/-- A subscriber that subscribes another and ends its own subscription, is called, and is then ended
once more from outside. -/
def relayCalls : List Call :=
  [.subscribe .lampOn fun _ => [.subscribe "lamp.dim" fun _ => [], .unsubscribeSelf],
    .notify ⟨.lampOn, none, some (.bool true)⟩, .unsubscribe 0]

theorem orderly_over_run_relay :
    (Registry.empty.serveAll 0 relayCalls).2 = [.made 0, .made 1, .found true, .found false] ∧
      [0, 1].Nodup ∧
      let served := Registry.empty.obeyAll ((Registry.empty.requestsOver 0 relayCalls).take 2)
      served.1.count = 2 ∧ (served.1.unsubscribe 0).2 = true ∧
        served.1.Drops 0 (served.1.unsubscribe 0).1 := by
  obtain ⟨hserved, hmade, hmoments⟩ := orderly_over_run 0 relayCalls
  have hfound := (hmoments 2).found 0
  refine ⟨congrArg Prod.snd hserved, hmade, (hmoments 2).count, ?_, ?_⟩
  · exact hfound.mpr (by decide)
  · exact (hmoments 2).drops 0 (hfound.mpr (by decide))

end Registry

end PropertyTree
