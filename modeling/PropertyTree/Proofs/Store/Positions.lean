import Mathlib.Data.List.Nodup
import PropertyTree.Proofs.Keyed
import PropertyTree.Store.Apply

/-! # Positions in a report

A report takes down the results of a batch one after the other, each at the position of its event,
as an outcome or as a failure. If none is left out, each position turns up in just one of the two
lists, both lists go upward, the counts add up, and the results can be read off again.
-/

namespace PropertyTree

instance : KeyOrder Nat where
  irrefl := Nat.lt_irrefl
  trans := Nat.lt_trans
  connected hab hba := Nat.le_antisymm (Nat.not_lt.mp hba) (Nat.not_lt.mp hab)

namespace Report

/-- The change that a result reports. -/
def change? : Except Failure Outcome → Option Change
  | .ok outcome => outcome.change?
  | .error _ => none

/-- The failure that a result reports. -/
def failure? : Except Failure Outcome → Option Failure
  | .ok _ => none
  | .error failure => some failure

/-- The outcome that a result reports. -/
def outcome? : Except Failure Outcome → Option Outcome
  | .ok outcome => some outcome
  | .error _ => none

/-- Takes down results from a position on. -/
def recordAll (report : Report) (index : Nat) : List (Except Failure Outcome) → Report
  | [] => report
  | result :: rest => (report.record index result).recordAll (index + 1) rest

/-- The report of a batch with these results. -/
def ofResults (results : List (Except Failure Outcome)) : Report := empty.recordAll 0 results

/-- The result at a position. -/
def result? (report : Report) (index : Nat) : Option (Except Failure Outcome) :=
  ((Keyed.find? index report.outcomes).map .ok) <|> (Keyed.find? index report.failures).map .error

/-- The results, position by position. -/
def results (report : Report) : List (Except Failure Outcome) :=
  (List.range report.total).filterMap report.result?

/-- The changes that were made, in order. -/
def changes (report : Report) : List Change :=
  report.outcomes.filterMap fun (_, outcome) => outcome.change?

theorem appliedCount_eq (report : Report) : report.appliedCount = report.changes.length := by
  rw [appliedCount, changes, List.length_filterMap_eq_countP]
  refine List.countP_congr ?_
  rintro ⟨index, outcome⟩ _
  cases outcome <;> simp [Outcome.isApplied, Outcome.change?]

/-- The entries that `pick` makes of numbered results. -/
def entries {α β : Type} (pick : α → Option β) (index : Nat) (results : List α) :
    List (Nat × β) :=
  (results.zipIdx index).filterMap fun (result, index) => (pick result).map (index, ·)

section Entries

variable {α β : Type} (pick : α → Option β)

theorem entries_cons (index : Nat) (result : α) (rest : List α) :
    entries pick index (result :: rest) =
      (pick result).toList.map (index, ·) ++ entries pick (index + 1) rest := by
  cases hpick : pick result <;> simp [entries, hpick]

theorem map_snd_entries (index : Nat) (results : List α) :
    (entries pick index results).map (·.2) = results.filterMap pick := by
  induction results generalizing index with
  | nil => rfl
  | cons result rest ih =>
      rw [entries_cons, List.map_append, ih, List.filterMap_cons]
      cases pick result <;> rfl

theorem mem_entries_iff {results : List α} {index : Nat} {entry : β} :
    (index, entry) ∈ entries pick 0 results ↔
      ∃ result, results[index]? = some result ∧ pick result = some entry := by
  simp only [entries, List.mem_filterMap, Prod.exists, List.mk_mem_zipIdx_iff_getElem?]
  constructor
  · rintro ⟨result, position, hresult, hpick⟩
    obtain ⟨_, hentry, hpair⟩ := Option.map_eq_some_iff.mp hpick
    cases hpair
    exact ⟨result, hresult, hentry⟩
  · rintro ⟨result, hresult, hpick⟩
    exact ⟨result, index, hresult, by rw [hpick, Option.map_some]⟩

/-- Numbered results that are picked out keep their order. -/
theorem ordered_entries (results : List α) : Keyed.Ordered (entries pick 0 results) := by
  have hnumbers : (results.zipIdx.map (·.2)).Pairwise (· < ·) := by
    rw [List.zipIdx_map_snd]
    exact List.pairwise_lt_range'
  refine List.Pairwise.filterMap _ ?_ (List.pairwise_map.mp hnumbers)
  intro first second hlt front hfront back hback
  obtain ⟨_, _, rfl⟩ := Option.map_eq_some_iff.mp hfront
  obtain ⟨_, _, rfl⟩ := Option.map_eq_some_iff.mp hback
  exact hlt

theorem find?_entries (index : Nat) (results : List α) :
    Keyed.find? index (entries pick 0 results) = results[index]?.bind pick := by
  apply Option.ext
  intro entry
  rw [(ordered_entries pick results).find?_eq_some_iff, mem_entries_iff, Option.bind_eq_some_iff]

end Entries

/-- What has been taken down stays, and the results are sorted behind it. -/
theorem recordAll_eq (report : Report) (index : Nat) (results : List (Except Failure Outcome)) :
    report.recordAll index results =
      ⟨report.outcomes ++ entries outcome? index results,
        report.failures ++ entries failure? index results⟩ := by
  induction results generalizing report index with
  | nil => simp [recordAll, entries]
  | cons result rest ih =>
      rw [recordAll, ih, entries_cons, entries_cons]
      cases result <;> simp [record, outcome?, failure?]

section OfResults

variable {results : List (Except Failure Outcome)}

theorem outcomes_ofResults : (ofResults results).outcomes = entries outcome? 0 results := by
  rw [ofResults, recordAll_eq]
  rfl

theorem failures_ofResults : (ofResults results).failures = entries failure? 0 results := by
  rw [ofResults, recordAll_eq]
  rfl

theorem mem_outcomes_iff {index : Nat} {outcome : Outcome} :
    (index, outcome) ∈ (ofResults results).outcomes ↔ results[index]? = some (.ok outcome) := by
  rw [outcomes_ofResults, mem_entries_iff]
  constructor
  · rintro ⟨result, hresult, hpick⟩
    cases result <;> cases hpick
    exact hresult
  · intro hresult
    exact ⟨_, hresult, rfl⟩

theorem mem_failures_iff {index : Nat} {failure : Failure} :
    (index, failure) ∈ (ofResults results).failures ↔ results[index]? = some (.error failure) := by
  rw [failures_ofResults, mem_entries_iff]
  constructor
  · rintro ⟨result, hresult, hpick⟩
    cases result <;> cases hpick
    exact hresult
  · intro hresult
    exact ⟨_, hresult, rfl⟩

theorem ordered_outcomes : Keyed.Ordered (ofResults results).outcomes :=
  outcomes_ofResults ▸ ordered_entries _ _

theorem ordered_failures : Keyed.Ordered (ofResults results).failures :=
  failures_ofResults ▸ ordered_entries _ _

/-- The changes of a report are those of its results, in order. -/
theorem changes_ofResults : (ofResults results).changes = results.filterMap change? := by
  have hchange : change? = fun result => (outcome? result).bind Outcome.change? := by
    funext result
    cases result <;> rfl
  rw [hchange, ← List.filterMap_filterMap, ← map_snd_entries outcome? 0, List.filterMap_map,
    changes, outcomes_ofResults]
  rfl

/-- The failures of a report are those of its results, in order. -/
theorem map_snd_failures : (ofResults results).failures.map (·.2) = results.filterMap failure? := by
  rw [failures_ofResults, map_snd_entries]

theorem failures_eq_nil_iff :
    (ofResults results).failures = [] ↔ ∀ failure, .error failure ∉ results := by
  rw [← List.map_eq_nil_iff, map_snd_failures, List.filterMap_eq_nil_iff]
  constructor
  · intro hnone failure hmem
    cases hnone _ hmem
  · intro hnone result hmem
    cases result with
    | ok outcome => rfl
    | error failure => exact absurd hmem (hnone failure)

end OfResults

/-- The positions of the accepted events. -/
def accepted (report : Report) : List Nat := report.outcomes.map (·.1)

/-- The positions of the failed events. -/
def failed (report : Report) : List Nat := report.failures.map (·.1)

/-- The positions below a number are dealt out among the outcomes and the failures of a report. -/
structure Covers (report : Report) (size : Nat) : Prop where
  accepted : report.accepted.Pairwise (· < ·)
  failed : report.failed.Pairwise (· < ·)
  disjoint : report.accepted.Disjoint report.failed
  covered : ∀ index, index < size ↔ index ∈ report.accepted ∨ index ∈ report.failed
  counts : report.appliedCount + report.noOpCount + report.failureCount = report.total
  total : report.total = size

section OfResults

variable (results : List (Except Failure Outcome))

theorem mem_accepted_iff {results : List (Except Failure Outcome)} {index : Nat} :
    index ∈ (ofResults results).accepted ↔ ∃ outcome, results[index]? = some (.ok outcome) := by
  rw [accepted, List.mem_map]
  constructor
  · rintro ⟨⟨_, outcome⟩, hmem, rfl⟩
    exact ⟨outcome, mem_outcomes_iff.mp hmem⟩
  · rintro ⟨outcome, hresult⟩
    exact ⟨_, mem_outcomes_iff.mpr hresult, rfl⟩

theorem mem_failed_iff {results : List (Except Failure Outcome)} {index : Nat} :
    index ∈ (ofResults results).failed ↔ ∃ failure, results[index]? = some (.error failure) := by
  rw [failed, List.mem_map]
  constructor
  · rintro ⟨⟨_, failure⟩, hmem, rfl⟩
    exact ⟨failure, mem_failures_iff.mp hmem⟩
  · rintro ⟨failure, hresult⟩
    exact ⟨_, mem_failures_iff.mpr hresult, rfl⟩

theorem pairwise_accepted : (ofResults results).accepted.Pairwise (· < ·) :=
  List.pairwise_map.mpr ordered_outcomes

theorem pairwise_failed : (ofResults results).failed.Pairwise (· < ·) :=
  List.pairwise_map.mpr ordered_failures

theorem disjoint_accepted_failed :
    (ofResults results).accepted.Disjoint (ofResults results).failed := by
  intro index haccepted hfailed
  obtain ⟨outcome, hok⟩ := mem_accepted_iff.mp haccepted
  obtain ⟨failure, herror⟩ := mem_failed_iff.mp hfailed
  rw [hok] at herror
  cases herror

theorem lt_length_iff {index : Nat} :
    index < results.length ↔
      index ∈ (ofResults results).accepted ∨ index ∈ (ofResults results).failed := by
  rw [mem_accepted_iff, mem_failed_iff]
  constructor
  · intro hlt
    have hget := List.getElem?_eq_getElem hlt
    cases hresult : results[index] with
    | ok outcome => exact Or.inl ⟨outcome, hget.trans (congrArg some hresult)⟩
    | error failure => exact Or.inr ⟨failure, hget.trans (congrArg some hresult)⟩
  · rintro (⟨_, hresult⟩ | ⟨_, hresult⟩) <;> exact (List.getElem?_eq_some_iff.mp hresult).1

theorem total_ofResults : (ofResults results).total = results.length := by
  have hnodup : ((ofResults results).accepted ++ (ofResults results).failed).Nodup :=
    List.Nodup.append ((pairwise_accepted results).imp Nat.ne_of_lt)
      ((pairwise_failed results).imp Nat.ne_of_lt) (disjoint_accepted_failed results)
  have hperm : ((ofResults results).accepted ++ (ofResults results).failed).Perm
      (List.range results.length) := by
    rw [List.perm_ext_iff_of_nodup hnodup List.nodup_range]
    intro index
    rw [List.mem_append, List.mem_range, lt_length_iff]
  have hlength := hperm.length_eq
  rwa [List.length_append, accepted, failed, List.length_map, List.length_map,
    List.length_range] at hlength

/-- A report into which results have been taken down one by one accounts for all of them. -/
theorem covers : (ofResults results).Covers results.length where
  accepted := pairwise_accepted results
  failed := pairwise_failed results
  disjoint := disjoint_accepted_failed results
  covered _ := lt_length_iff results
  counts := by
    have happlied : (ofResults results).appliedCount ≤ (ofResults results).outcomes.length :=
      List.countP_le_length
    rw [noOpCount, failureCount, total, Nat.add_sub_cancel' happlied]
  total := total_ofResults results

theorem result?_ofResults (index : Nat) : (ofResults results).result? index = results[index]? := by
  rw [result?, outcomes_ofResults, failures_ofResults, find?_entries, find?_entries]
  cases results[index]? with
  | none => rfl
  | some result => cases result <;> rfl

/-- The results can be read off the report. -/
@[simp] theorem results_ofResults : (ofResults results).results = results := by
  have hrange : ∀ items : List (Except Failure Outcome),
      (List.range items.length).filterMap (items[·]?) = items := by
    intro items
    induction items with
    | nil => rfl
    | cons item rest ih =>
        rw [List.length_cons, List.range_succ_eq_map, List.filterMap_cons_some (by rfl),
          List.filterMap_map]
        exact congrArg (item :: ·) ih
  rw [Report.results, total_ofResults, funext (result?_ofResults results), hrange]

theorem failureCount_ofResults :
    (ofResults results).failureCount = (results.filterMap failure?).length := by
  rw [← map_snd_failures, List.length_map]
  rfl

/-- The failures of a report and their positions depend only on where its results fail. -/
theorem failures_congr {left right : List (Except Failure Outcome)}
    (h : left.map failure? = right.map failure?) :
    (ofResults left).failures = (ofResults right).failures := by
  have hfailures : ∀ results : List (Except Failure Outcome), (ofResults results).failures =
      entries id 0 (results.map failure?) := by
    intro results
    rw [failures_ofResults, entries, entries, List.zipIdx_map, List.filterMap_map]
    rfl
  rw [hfailures, hfailures, h]

end OfResults

end Report

end PropertyTree
