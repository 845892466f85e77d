/-!
# Keyed lists

A finite map is kept as a list of entries in strictly increasing order of their keys, so that two
maps with the same content are the same list. `Keyed.insert` and `Keyed.erase` keep the order, and
what they do is said through `Keyed.find?`; `Keyed.ext` turns equal look-ups back into equality.
A `Dictionary` carries its order with it.
-/

namespace PropertyTree

/-- A strict total order on keys. -/
class KeyOrder (κ : Type) [LT κ] : Prop where
  irrefl (a : κ) : ¬a < a
  trans {a b c : κ} : a < b → b < c → a < c
  connected {a b : κ} : ¬a < b → ¬b < a → a = b

namespace KeyOrder

variable {κ : Type} [LT κ] [KeyOrder κ]

theorem ne_of_lt {a b : κ} (h : a < b) : a ≠ b := by
  intro same
  subst same
  exact irrefl a h

theorem lt_asymm {a b : κ} (h : a < b) : ¬b < a := fun back => irrefl a (trans h back)

theorem lt_of_ne_of_not_lt {a b : κ} (ne : a ≠ b) (h : ¬a < b) : b < a :=
  Classical.byContradiction fun back => ne (connected h back)

end KeyOrder

instance : KeyOrder String where
  irrefl := String.lt_irrefl
  trans := String.lt_trans
  connected hab hba := String.le_antisymm hba hab

instance {κ : Type} [LT κ] [KeyOrder κ] : KeyOrder (List κ) where
  irrefl a h := by
    induction a with
    | nil => exact (List.not_lt_nil _ h).elim
    | cons x rest ih =>
      rcases List.cons_lt_cons_iff.mp h with h | ⟨_, h⟩
      · exact KeyOrder.irrefl x h
      · exact ih h
  trans {a b c} hab hbc := by
    induction a generalizing b c with
    | nil =>
      cases c with
      | nil => exact (List.not_lt_nil _ hbc).elim
      | cons z zs => exact List.nil_lt_cons z zs
    | cons x xs ih =>
      cases b with
      | nil => exact (List.not_lt_nil _ hab).elim
      | cons y ys =>
        cases c with
        | nil => exact (List.not_lt_nil _ hbc).elim
        | cons z zs =>
          rw [List.cons_lt_cons_iff] at hab hbc ⊢
          rcases hab with hxy | ⟨rfl, hab⟩ <;> rcases hbc with hyz | ⟨rfl, hbc⟩
          · exact .inl (KeyOrder.trans hxy hyz)
          · exact .inl hxy
          · exact .inl hyz
          · exact .inr ⟨rfl, ih hab hbc⟩
  connected {a b} hab hba := by
    induction a generalizing b with
    | nil =>
      cases b with
      | nil => rfl
      | cons y ys => exact (hab (List.nil_lt_cons y ys)).elim
    | cons x xs ih =>
      cases b with
      | nil => exact (hba (List.nil_lt_cons x xs)).elim
      | cons y ys =>
        rw [List.cons_lt_cons_iff] at hab hba
        have hxy : x = y := KeyOrder.connected (fun h => hab (.inl h)) (fun h => hba (.inl h))
        subst hxy
        rw [ih (fun h => hab (.inr ⟨rfl, h⟩)) (fun h => hba (.inr ⟨rfl, h⟩))]

namespace Keyed

variable {κ α β : Type}

/-- The entries stand in strictly increasing key order. -/
def Ordered [LT κ] (entries : List (κ × α)) : Prop :=
  entries.Pairwise fun a b => a.1 < b.1

/-- The value of the first entry with this key. -/
def find? [DecidableEq κ] (key : κ) : List (κ × α) → Option α
  | [] => none
  | (k, value) :: rest => if k = key then some value else find? key rest

/-- Sets the value of a key, in its place in the order. -/
def insert [DecidableEq κ] [LT κ] [DecidableLT κ] (key : κ) (value : α) :
    List (κ × α) → List (κ × α)
  | [] => [(key, value)]
  | (k, old) :: rest =>
    if k = key then (key, value) :: rest
    else if key < k then (key, value) :: (k, old) :: rest
    else (k, old) :: insert key value rest

/-- Drops the first entry with this key. -/
def erase [DecidableEq κ] (key : κ) : List (κ × α) → List (κ × α)
  | [] => []
  | (k, value) :: rest => if k = key then rest else (k, value) :: erase key rest

/-- Changes every value and no key. -/
def mapValues (f : α → β) (entries : List (κ × α)) : List (κ × β) :=
  entries.map fun (k, value) => (k, f value)

section Find

variable [DecidableEq κ]

@[simp] theorem find?_nil (key : κ) : find? key ([] : List (κ × α)) = none := rfl

theorem find?_cons (key k : κ) (value : α) (rest : List (κ × α)) :
    find? key ((k, value) :: rest) = if k = key then some value else find? key rest := rfl

theorem mem_of_find?_eq_some {key : κ} {value : α} {entries : List (κ × α)}
    (h : find? key entries = some value) : (key, value) ∈ entries := by
  induction entries with
  | nil => simp at h
  | cons entry rest ih =>
    obtain ⟨k, old⟩ := entry
    rw [find?_cons] at h
    split at h
    next same =>
      subst same
      simp only [Option.some.injEq] at h
      simp [h]
    next => exact List.mem_cons_of_mem _ (ih h)

theorem find?_eq_none_iff {key : κ} {entries : List (κ × α)} :
    find? key entries = none ↔ ∀ entry ∈ entries, entry.1 ≠ key := by
  induction entries with
  | nil => simp
  | cons entry rest ih =>
    obtain ⟨k, old⟩ := entry
    rw [find?_cons]
    by_cases same : k = key <;> simp [same, ih]

@[simp] theorem find?_mapValues (f : α → β) (key : κ) (entries : List (κ × α)) :
    find? key (mapValues f entries) = (find? key entries).map f := by
  induction entries with
  | nil => rfl
  | cons entry rest ih =>
    obtain ⟨k, old⟩ := entry
    simp only [mapValues, List.map_cons, find?_cons] at ih ⊢
    split
    next => rfl
    next => exact ih

theorem mem_of_mem_erase {key : κ} {entry : κ × α} {entries : List (κ × α)}
    (h : entry ∈ erase key entries) : entry ∈ entries := by
  induction entries with
  | nil => exact h
  | cons first rest ih =>
    obtain ⟨k, old⟩ := first
    rw [erase] at h
    split at h
    next => exact List.mem_cons_of_mem _ h
    next =>
      rcases List.mem_cons.mp h with h | h
      · exact h ▸ List.mem_cons_self
      · exact List.mem_cons_of_mem _ (ih h)

end Find

section Change

variable [DecidableEq κ] [LT κ] [DecidableLT κ]

/-- A look-up after an insertion sees the new value at the key and the old ones elsewhere. -/
theorem find?_insert (key other : κ) (value : α) (entries : List (κ × α)) :
    find? other (insert key value entries) =
      if key = other then some value else find? other entries := by
  induction entries with
  | nil => simp [insert, find?]
  | cons entry rest ih =>
    obtain ⟨k, old⟩ := entry
    by_cases same : k = key
    · subst same
      by_cases h : k = other <;> simp [insert, find?_cons, h]
    · by_cases lt : key < k
      · rw [insert, if_neg same, if_pos lt, find?_cons]
      · rw [insert, if_neg same, if_neg lt, find?_cons, find?_cons, ih]
        by_cases h : k = other
        · subst h
          simp [Ne.symm same]
        · simp [h]

@[simp] theorem find?_insert_self (key : κ) (value : α) (entries : List (κ × α)) :
    find? key (insert key value entries) = some value := by
  simp [find?_insert]

theorem mem_insert_imp {key : κ} {value : α} {entry : κ × α} {entries : List (κ × α)}
    (h : entry ∈ insert key value entries) : entry = (key, value) ∨ entry ∈ entries := by
  induction entries with
  | nil => simpa [insert] using h
  | cons first rest ih =>
    obtain ⟨k, old⟩ := first
    rw [insert] at h
    split at h
    next => exact (List.mem_cons.mp h).imp id (List.mem_cons_of_mem _)
    next =>
      split at h
      next => exact List.mem_cons.mp h
      next =>
        rcases List.mem_cons.mp h with h | h
        · exact .inr (h ▸ List.mem_cons_self)
        · exact (ih h).imp id (List.mem_cons_of_mem _)

end Change

section Order

variable [LT κ]

theorem ordered_nil : Ordered ([] : List (κ × α)) := List.Pairwise.nil

theorem Ordered.tail {entry : κ × α} {rest : List (κ × α)} (h : Ordered (entry :: rest)) :
    Ordered rest :=
  (List.pairwise_cons.mp h).2

theorem Ordered.head_lt {entry : κ × α} {rest : List (κ × α)} (h : Ordered (entry :: rest)) :
    ∀ other ∈ rest, entry.1 < other.1 :=
  (List.pairwise_cons.mp h).1

theorem Ordered.mapValues {entries : List (κ × α)} (h : Ordered entries) (f : α → β) :
    Ordered (mapValues f entries) := by
  rw [Ordered, Keyed.mapValues, List.pairwise_map]
  exact h

variable [DecidableEq κ] [DecidableLT κ] [KeyOrder κ]

theorem Ordered.insert {entries : List (κ × α)} (h : Ordered entries) (key : κ) (value : α) :
    Ordered (insert key value entries) := by
  induction entries with
  | nil => simp [Keyed.insert, Ordered]
  | cons entry rest ih =>
    obtain ⟨k, old⟩ := entry
    rw [Keyed.insert]
    split
    next same =>
      subst same
      exact List.pairwise_cons.mpr ⟨fun other mem => h.head_lt other mem, h.tail⟩
    next ne =>
      split
      next lt =>
        refine List.pairwise_cons.mpr ⟨fun other mem => ?_, h⟩
        rcases List.mem_cons.mp mem with rfl | mem
        · exact lt
        · exact KeyOrder.trans lt (h.head_lt other mem)
      next not_lt =>
        refine List.pairwise_cons.mpr ⟨fun other mem => ?_, ih h.tail⟩
        rcases mem_insert_imp mem with rfl | mem
        · exact KeyOrder.lt_of_ne_of_not_lt (fun e => ne e.symm) not_lt
        · exact h.head_lt other mem

omit [DecidableLT κ] [KeyOrder κ] in
theorem Ordered.erase {entries : List (κ × α)} (h : Ordered entries) (key : κ) :
    Ordered (erase key entries) := by
  induction entries with
  | nil => exact h
  | cons entry rest ih =>
    obtain ⟨k, old⟩ := entry
    rw [Keyed.erase]
    split
    next => exact h.tail
    next =>
      exact List.pairwise_cons.mpr
        ⟨fun other mem => h.head_lt other (mem_of_mem_erase mem), ih h.tail⟩

omit [DecidableLT κ] in
theorem Ordered.find?_eq_some_iff {entries : List (κ × α)} (h : Ordered entries) {key : κ}
    {value : α} : find? key entries = some value ↔ (key, value) ∈ entries := by
  refine ⟨mem_of_find?_eq_some, fun mem => ?_⟩
  induction entries with
  | nil => simp at mem
  | cons entry rest ih =>
    obtain ⟨k, old⟩ := entry
    rw [find?_cons]
    rcases List.mem_cons.mp mem with same | mem
    · cases same
      simp
    · have lt : k < key := h.head_lt _ mem
      rw [if_neg (KeyOrder.ne_of_lt lt)]
      exact ih h.tail mem

omit [DecidableLT κ] in
/-- A look-up after an erasure misses the key and sees the old values elsewhere. -/
theorem Ordered.find?_erase {entries : List (κ × α)} (h : Ordered entries) (key other : κ) :
    find? other (Keyed.erase key entries) = if key = other then none else find? other entries := by
  induction entries with
  | nil => simp [Keyed.erase]
  | cons entry rest ih =>
    obtain ⟨k, old⟩ := entry
    by_cases same : k = key
    · subst same
      by_cases e : k = other
      · subst e
        simp only [Keyed.erase, if_true]
        exact find?_eq_none_iff.mpr fun entry mem => (KeyOrder.ne_of_lt (h.head_lt entry mem)).symm
      · simp [Keyed.erase, find?_cons, e]
    · rw [Keyed.erase, if_neg same, find?_cons, find?_cons, ih h.tail]
      by_cases e : k = other
      · subst e
        simp [Ne.symm same]
      · simp [e]

omit [DecidableLT κ] in
/-- Ordered lists that answer every look-up alike are equal. -/
theorem ext {left right : List (κ × α)} (hl : Ordered left) (hr : Ordered right)
    (h : ∀ key, find? key left = find? key right) : left = right := by
  induction left generalizing right with
  | nil =>
    cases right with
    | nil => rfl
    | cons entry rest =>
      obtain ⟨k, value⟩ := entry
      simpa [find?_cons] using h k
  | cons entry rest ih =>
    obtain ⟨k, value⟩ := entry
    cases right with
    | nil => simpa [find?_cons] using h k
    | cons entry' rest' =>
      obtain ⟨k', value'⟩ := entry'
      have no_lt : ¬k < k' := fun lt => by
        have miss : find? k ((k', value') :: rest') = none :=
          find?_eq_none_iff.mpr fun entry mem => by
            rcases List.mem_cons.mp mem with rfl | mem
            · exact (KeyOrder.ne_of_lt lt).symm
            · exact (KeyOrder.ne_of_lt (KeyOrder.trans lt (hr.head_lt entry mem))).symm
        have := h k
        rw [miss, find?_cons, if_pos rfl] at this
        simp at this
      have no_gt : ¬k' < k := fun lt => by
        have miss : find? k' ((k, value) :: rest) = none :=
          find?_eq_none_iff.mpr fun entry mem => by
            rcases List.mem_cons.mp mem with rfl | mem
            · exact (KeyOrder.ne_of_lt lt).symm
            · exact (KeyOrder.ne_of_lt (KeyOrder.trans lt (hl.head_lt entry mem))).symm
        have := h k'
        rw [miss, find?_cons, if_pos rfl] at this
        simp at this
      obtain rfl := KeyOrder.connected no_lt no_gt
      have values : value = value' := by
        have := h k
        simpa [find?_cons] using this
      subst values
      congr 1
      refine ih hl.tail hr.tail fun key => ?_
      by_cases e : k = key
      · subst e
        rw [find?_eq_none_iff.mpr fun entry mem => (KeyOrder.ne_of_lt (hl.head_lt entry mem)).symm,
          find?_eq_none_iff.mpr fun entry mem => (KeyOrder.ne_of_lt (hr.head_lt entry mem)).symm]
      · have := h key
        rwa [find?_cons, find?_cons, if_neg e, if_neg e] at this

end Order

end Keyed

/-- A finite map whose entries stand in key order. -/
structure Dictionary (κ α : Type) [LT κ] where
  entries : List (κ × α)
  ordered : Keyed.Ordered entries

namespace Dictionary

variable {κ α : Type} [LT κ]

instance [DecidableEq κ] [DecidableEq α] : DecidableEq (Dictionary κ α) := fun a b =>
  match decEq a.entries b.entries with
  | isTrue h => isTrue (by cases a; cases b; cases h; rfl)
  | isFalse h => isFalse fun e => h (e ▸ rfl)

/-- The map without entries. -/
def empty : Dictionary κ α := ⟨[], Keyed.ordered_nil⟩

instance : Inhabited (Dictionary κ α) := ⟨empty⟩

/-- The number of entries. -/
def size (map : Dictionary κ α) : Nat := map.entries.length

/-- The keys in increasing order. -/
def keys (map : Dictionary κ α) : List κ := map.entries.map (·.1)

variable [DecidableEq κ]

/-- The value of a key. -/
def get? (map : Dictionary κ α) (key : κ) : Option α := Keyed.find? key map.entries

/-- Drops a key. -/
def erase (map : Dictionary κ α) (key : κ) : Dictionary κ α :=
  ⟨Keyed.erase key map.entries, map.ordered.erase key⟩

variable [DecidableLT κ] [KeyOrder κ]

/-- Sets the value of a key. -/
def insert (map : Dictionary κ α) (key : κ) (value : α) : Dictionary κ α :=
  ⟨Keyed.insert key value map.entries, map.ordered.insert key value⟩

omit [DecidableEq κ] [DecidableLT κ] [KeyOrder κ] in
@[simp] theorem get?_empty [DecidableEq κ] (key : κ) :
    (empty : Dictionary κ α).get? key = none := rfl

theorem get?_insert (map : Dictionary κ α) (key other : κ) (value : α) :
    (map.insert key value).get? other = if key = other then some value else map.get? other :=
  Keyed.find?_insert key other value map.entries

omit [DecidableLT κ] in
theorem get?_erase (map : Dictionary κ α) (key other : κ) :
    (map.erase key).get? other = if key = other then none else map.get? other :=
  map.ordered.find?_erase key other

omit [DecidableLT κ] in
theorem get?_eq_some_iff (map : Dictionary κ α) {key : κ} {value : α} :
    map.get? key = some value ↔ (key, value) ∈ map.entries :=
  map.ordered.find?_eq_some_iff

omit [DecidableLT κ] in
/-- Maps that answer every look-up alike are equal. -/
theorem ext {left right : Dictionary κ α} (h : ∀ key, left.get? key = right.get? key) :
    left = right := by
  have entries := Keyed.ext left.ordered right.ordered h
  cases left
  cases right
  cases entries
  rfl

end Dictionary

end PropertyTree
