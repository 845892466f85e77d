import PropertyTree.Keyed

/-! # Maps by their entries

An ordered list is settled by its members, and a map by its look-ups. The maps that are read off
another one, by changing all values or by keeping some of the keys, answer look-ups accordingly.
-/

namespace PropertyTree

/-- In a list that is sorted, the first entry with an answer is the least one. -/
theorem findSome?_eq_some_iff_of_pairwise {α β : Type} {r : α → α → Prop}
    (hasymm : ∀ a b, r a b → ¬ r b a) {f : α → Option β} {entries : List α}
    (hsorted : entries.Pairwise r) {answer : β} :
    entries.findSome? f = some answer ↔
      ∃ entry ∈ entries, f entry = some answer ∧ ∀ other ∈ entries, r other entry →
        f other = none := by
  rw [List.findSome?_eq_some_iff]
  constructor
  · rintro ⟨before, entry, after, rfl, hanswer, hnone⟩
    obtain ⟨_, hafter, _⟩ := List.pairwise_append.mp hsorted
    refine ⟨entry, List.mem_append_right _ List.mem_cons_self, hanswer, ?_⟩
    intro other hother hlt
    rcases List.mem_append.mp hother with hbefore | hother
    · exact hnone other hbefore
    · rcases List.mem_cons.mp hother with rfl | hother
      · exact absurd hlt (hasymm _ _ hlt)
      · exact absurd hlt (hasymm _ _ ((List.pairwise_cons.mp hafter).1 other hother))
  · rintro ⟨entry, hmem, hanswer, hleast⟩
    obtain ⟨before, after, rfl⟩ := List.append_of_mem hmem
    refine ⟨before, entry, after, rfl, hanswer, ?_⟩
    intro other hbefore
    have hlt := (List.pairwise_append.mp hsorted).2.2 other hbefore entry List.mem_cons_self
    exact hleast other (List.mem_append_left _ hbefore) hlt

variable {κ α β : Type} [LT κ] [DecidableEq κ] [KeyOrder κ]

/-- Ordered lists with the same members are equal. -/
theorem Keyed.ext_mem {left right : List (κ × α)} (hleft : Ordered left) (hright : Ordered right)
    (hmem : ∀ entry, entry ∈ left ↔ entry ∈ right) : left = right := by
  apply Keyed.ext hleft hright
  intro key
  apply Option.ext
  intro value
  rw [hleft.find?_eq_some_iff, hright.find?_eq_some_iff, hmem]

omit [LT κ] [KeyOrder κ] in
theorem Keyed.find?_append (key : κ) (front back : List (κ × α)) :
    find? key (front ++ back) = (find? key front).or (find? key back) := by
  induction front with
  | nil => rfl
  | cons entry rest ih =>
      obtain ⟨first, value⟩ := entry
      rw [List.cons_append, find?_cons, find?_cons, ih]
      split <;> rfl

/-- A key before all others goes to the front. -/
theorem Keyed.insert_of_forall_lt [DecidableLT κ] {key : κ} {entries : List (κ × α)}
    (hlt : ∀ entry ∈ entries, key < entry.1) (value : α) :
    insert key value entries = (key, value) :: entries := by
  cases entries with
  | nil => rfl
  | cons entry rest =>
      obtain ⟨first, old⟩ := entry
      have hfirst : key < first := hlt _ List.mem_cons_self
      rw [insert, if_neg (KeyOrder.ne_of_lt hfirst).symm, if_pos hfirst]

namespace Dictionary

theorem mem_keys_iff (map : Dictionary κ α) {key : κ} :
    key ∈ map.keys ↔ ∃ value, map.get? key = some value := by
  rw [keys, List.mem_map]
  constructor
  · rintro ⟨⟨_, value⟩, hmem, rfl⟩
    exact ⟨value, map.get?_eq_some_iff.mpr hmem⟩
  · rintro ⟨value, hget⟩
    exact ⟨(key, value), map.get?_eq_some_iff.mp hget, rfl⟩

omit [DecidableEq κ] [KeyOrder κ] in
theorem pairwise_keys (map : Dictionary κ α) : map.keys.Pairwise (· < ·) :=
  List.pairwise_map.mpr map.ordered

/-- Changes every value and no key. -/
def mapValues (f : α → β) (map : Dictionary κ α) : Dictionary κ β :=
  ⟨Keyed.mapValues f map.entries, map.ordered.mapValues f⟩

omit [KeyOrder κ] in
theorem get?_mapValues (f : α → β) (map : Dictionary κ α) (key : κ) :
    (map.mapValues f).get? key = (map.get? key).map f :=
  Keyed.find?_mapValues f key map.entries

/-- Keeps the entries whose keys pass a test. -/
def filterKeys (test : κ → Bool) (map : Dictionary κ α) : Dictionary κ α :=
  ⟨map.entries.filter fun entry => test entry.1, List.Pairwise.filter _ map.ordered⟩

theorem get?_filterKeys (test : κ → Bool) (map : Dictionary κ α) (key : κ) :
    (map.filterKeys test).get? key = if test key then map.get? key else none := by
  apply Option.ext
  intro value
  rw [get?_eq_some_iff, filterKeys, List.mem_filter, ← get?_eq_some_iff]
  by_cases htest : test key = true <;> simp [htest]

end Dictionary

end PropertyTree
