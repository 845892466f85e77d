import PropertyTree.CommandLine
import PropertyTree.Proofs.Session.EntryPoints

/-! # Replaying a log

A log is replayed line by line, so two logs one after the other come to the same as both in one,
with the lines of the second numbered on. A replay has no failures just when every line that is not
blank is accepted where it stands, and without documents it is a batch.
-/

namespace PropertyTree

namespace Text

/-- The text is empty or ends with a line feed, so what is added to it starts a new line. -/
def IsClosed (text : String) : Prop := text = "" ∨ ∃ front, text = front ++ "\n"

theorem lineChars_ne_nil {chars : List Char} (h : chars ≠ []) : lineChars chars ≠ [] := by
  fun_cases lineChars chars with
  | case1 => exact absurd rfl h
  | case2 | case3 | case4 | case5 => exact List.cons_ne_nil _ _

/-- A character that ends no line stands in front of the first line of the rest. -/
theorem lineChars_cons {c : Char} {rest : List Char} (hfeed : c ≠ '\n')
    (hreturn : c = '\r' → rest.head? ≠ some '\n') :
    lineChars (c :: rest) = (c :: (lineChars rest).head?.getD []) :: (lineChars rest).tail := by
  rw [lineChars]
  · cases lineChars rest <;> rfl
  · exact hfeed
  · rintro others rfl rfl
    exact hreturn rfl rfl

theorem lineChars_append_feed (front back : List Char) :
    lineChars (front ++ '\n' :: back) = lineChars (front ++ ['\n']) ++ lineChars back := by
  induction front with
  | nil => rfl
  | cons c rest ih =>
      by_cases hfeed : c = '\n'
      · subst hfeed
        exact congrArg (List.cons []) ih
      have hhead : ∀ tail, (rest ++ '\n' :: tail).head? = some (rest.head?.getD '\n') := by
        intro tail
        cases rest <;> rfl
      by_cases hreturn : c = '\r' ∧ rest.head?.getD '\n' = '\n'
      · obtain ⟨rfl, hnext⟩ := hreturn
        cases rest with
        | nil => rfl
        | cons next rest =>
            obtain rfl : next = '\n' := hnext
            exact ih
      · have hplain : ∀ tail, c = '\r' → (rest ++ '\n' :: tail).head? ≠ some '\n' := by
          intro tail hc hnext
          rw [hhead] at hnext
          exact hreturn ⟨hc, Option.some.inj hnext⟩
        rw [List.cons_append, List.cons_append, lineChars_cons hfeed (hplain _),
          lineChars_cons hfeed (hplain _), ih]
        have hne : lineChars (rest ++ ['\n']) ≠ [] := lineChars_ne_nil (by simp)
        obtain ⟨first, others, hlines⟩ := List.exists_cons_of_ne_nil hne
        rw [hlines]
        rfl

/-- What follows a closed text leaves its lines alone. -/
theorem lines_append {front : String} (h : IsClosed front) (back : String) :
    lines (front ++ back) = lines front ++ lines back := by
  rw [lines, lines, lines, ← List.map_append, String.toList_append]
  obtain rfl | ⟨text, rfl⟩ := h
  · rfl
  · rw [String.toList_append, List.append_assoc]
    exact congrArg (List.map String.ofList) (lineChars_append_feed text.toList back.toList)

end Text

/-- The same failure in a log that has so many more lines in front. -/
def LineFailure.shift (count : Nat) (failure : LineFailure) : LineFailure :=
  { failure with line := failure.line + count }

namespace Report

variable (front back : List (Except Failure Outcome))

theorem appliedCount_append :
    (ofResults (front ++ back)).appliedCount =
      (ofResults front).appliedCount + (ofResults back).appliedCount := by
  simp only [appliedCount_eq, changes_ofResults, List.filterMap_append, List.length_append]

theorem failureCount_append :
    (ofResults (front ++ back)).failureCount =
      (ofResults front).failureCount + (ofResults back).failureCount := by
  simp only [failureCount_ofResults, List.filterMap_append, List.length_append]

theorem noOpCount_append :
    (ofResults (front ++ back)).noOpCount =
      (ofResults front).noOpCount + (ofResults back).noOpCount := by
  have hcounts : ∀ results, (ofResults results).appliedCount + (ofResults results).noOpCount +
      (ofResults results).failureCount = results.length := fun results =>
    (covers results).counts.trans (total_ofResults results)
  have hfront := hcounts front
  have hback := hcounts back
  have hboth := hcounts (front ++ back)
  rw [appliedCount_append, failureCount_append, List.length_append] at hboth
  omega

end Report

namespace ReplaySummary

/-- The same summary of a part that has so many more lines in front. -/
def shift (count : Nat) (summary : ReplaySummary) : ReplaySummary :=
  { summary with failures := summary.failures.map (.shift count) }

theorem shift_append (count : Nat) (first second : ReplaySummary) :
    (first.append second).shift count = (first.shift count).append (second.shift count) := by
  simp only [shift, append, List.map_append]

@[simp] theorem none_append (summary : ReplaySummary) : none.append summary = summary := by
  simp [none, append]

theorem append_assoc (first second third : ReplaySummary) :
    (first.append second).append third = first.append (second.append third) := by
  simp only [append, Nat.add_assoc, List.append_assoc]

/-- The summary of a line that is not blank. -/
def ofResult (line : Nat) : Except LineError Report → ReplaySummary
  | .error error => ofError line error
  | .ok report => ofReport line report

variable {number : Nat} {result : Except LineError Report}

theorem shift_ofResult (count : Nat) :
    (ofResult number result).shift count = ofResult (number + count) result := by
  cases result with
  | error error => rfl
  | ok report =>
      simp only [ofResult, ofReport, shift, List.map_map]
      rfl

theorem line_of_mem_ofResult {failure : LineFailure}
    (h : failure ∈ (ofResult number result).failures) : failure.line = number := by
  cases result with
  | error error => rw [List.mem_singleton.mp h]
  | ok report =>
      obtain ⟨entry, _, rfl⟩ := List.mem_map.mp h
      rfl

theorem failures_ofResult_eq_nil_iff :
    (ofResult number result).failures = [] ↔ ∃ report, result = .ok report ∧ report.isClean := by
  cases result with
  | error error => simp [ofResult, ofError]
  | ok report => simp [ofResult, ofReport, Report.isClean]

/-- The numbers of a summary are those of a report. -/
structure Counts (summary : ReplaySummary) (report : Report) : Prop where
  applied : summary.applied = report.appliedCount
  noOps : summary.noOps = report.noOpCount
  failures : summary.failures.length = report.failureCount

namespace Counts

theorem ofReport (number : Nat) (report : Report) :
    (ReplaySummary.ofReport number report).Counts report := ⟨rfl, rfl, List.length_map ..⟩

theorem append {first second : ReplaySummary} {front back : List (Except Failure Outcome)}
    (hfirst : first.Counts (.ofResults front)) (hsecond : second.Counts (.ofResults back)) :
    (first.append second).Counts (.ofResults (front ++ back)) := by
  constructor
  · rw [ReplaySummary.append, Report.appliedCount_append, hfirst.applied, hsecond.applied]
  · rw [ReplaySummary.append, Report.noOpCount_append, hfirst.noOps, hsecond.noOps]
  · rw [ReplaySummary.append, List.length_append, Report.failureCount_append, hfirst.failures,
      hsecond.failures]

end Counts

end ReplaySummary

namespace Session

section Lines

variable (decode : String → Except String WireEvent) (depth : Nat)

/-- What becomes of a line that is not blank. -/
def attemptLine (session : Session) (line : String) : Session × Except LineError Report :=
  match decode line with
  | .error reason => (session, .error (.undecodable reason))
  | .ok event =>
      ((session.applyDocument depth event).session,
        (session.applyDocument depth event).result.mapError .refused)

theorem replayLine_eq (session : Session) (number : Nat) (line : String) :
    session.replayLine decode depth number line =
      if Text.isBlank line then (session, .none)
      else ((session.attemptLine decode depth line).1,
        .ofResult number (session.attemptLine decode depth line).2) := by
  rw [replayLine, attemptLine]
  refine if_congr Iff.rfl rfl ?_
  cases decode line with
  | error reason => rfl
  | ok event =>
      simp only
      cases (session.applyDocument depth event).result <;> rfl

/-- Only the failures of a line show its number. -/
theorem replayLine_add (session : Session) (number count : Nat) (line : String) :
    session.replayLine decode depth (number + count) line =
      let replayed := session.replayLine decode depth number line
      (replayed.1, replayed.2.shift count) := by
  rw [replayLine_eq, replayLine_eq]
  split
  next => rfl
  next => exact congrArg (Prod.mk _) (ReplaySummary.shift_ofResult count).symm

variable {decode depth} in
theorem line_of_mem_replayLine {session : Session} {number : Nat} {line : String}
    {failure : LineFailure}
    (h : failure ∈ (session.replayLine decode depth number line).2.failures) :
    failure.line = number := by
  rw [replayLine_eq] at h
  split at h
  next => cases h
  next => exact ReplaySummary.line_of_mem_ofResult h

theorem replayLines_cons (session : Session) (number : Nat) (line : String) (rest : List String) :
    session.replayLines decode depth number (line :: rest) =
      let first := session.replayLine decode depth number line
      let others := first.1.replayLines decode depth (number + 1) rest
      (others.1, first.2.append others.2) := rfl

theorem replayLines_add (session : Session) (number count : Nat) (lines : List String) :
    session.replayLines decode depth (number + count) lines =
      let replayed := session.replayLines decode depth number lines
      (replayed.1, replayed.2.shift count) := by
  induction lines generalizing session number with
  | nil => rfl
  | cons line rest ih =>
      simp only [replayLines_cons, replayLine_add, Nat.add_right_comm number count, ih,
        ReplaySummary.shift_append]

/-- The lines of the second part are numbered on. -/
theorem replayLines_append (session : Session) (number : Nat) (front back : List String) :
    session.replayLines decode depth number (front ++ back) =
      let first := session.replayLines decode depth number front
      let second := first.1.replayLines decode depth (number + front.length) back
      (second.1, first.2.append second.2) := by
  induction front generalizing session number with
  | nil => exact congrArg (Prod.mk _) (ReplaySummary.none_append _).symm
  | cons line rest ih =>
      simp only [List.cons_append, replayLines_cons, ih, ReplaySummary.append_assoc,
        List.length_cons, Nat.add_assoc, Nat.add_comm 1]

/-- Failures come in the order of the lines they are about. -/
theorem failures_replayLines (session : Session) (number : Nat) (lines : List String) :
    let failures := (session.replayLines decode depth number lines).2.failures
    failures.Pairwise (·.line ≤ ·.line) ∧
      ∀ failure ∈ failures, number ≤ failure.line ∧ failure.line < number + lines.length := by
  intro failures
  induction lines generalizing session number with
  | nil => exact ⟨.nil, List.forall_mem_nil _⟩
  | cons line rest ih =>
      let replayed := session.replayLine decode depth number line
      obtain ⟨hrest, hwithin⟩ := ih replayed.1 (number + 1)
      have hfirst : ∀ failure ∈ replayed.2.failures, failure.line = number :=
        fun _ => line_of_mem_replayLine
      have hsplit : failures = replayed.2.failures ++
          (replayed.1.replayLines decode depth (number + 1) rest).2.failures := rfl
      rw [hsplit]
      refine ⟨List.pairwise_append.mpr ⟨?_, hrest, ?_⟩, ?_⟩
      · refine List.pairwise_of_forall_mem_list ?_
        intro front hfront back hback
        exact Nat.le_of_eq ((hfirst front hfront).trans (hfirst back hback).symm)
      · intro front hfront back hback
        have hline := hfirst front hfront
        have hlater := hwithin back hback
        omega
      · intro failure hmem
        rw [List.length_cons]
        obtain hmem | hmem := List.mem_append.mp hmem
        · have hline := hfirst failure hmem
          omega
        · have hline := hwithin failure hmem
          omega

/-- The line stands for events that are all accepted. -/
def Takes (session : Session) (line : String) : Prop :=
  ∃ event report, decode line = .ok event ∧
    (session.applyDocument depth event).result = .ok report ∧ report.isClean = true

variable {decode depth}

theorem failures_replayLine_eq_nil_iff {session : Session} {number : Nat} {line : String} :
    (session.replayLine decode depth number line).2.failures = [] ↔
      (Text.isBlank line = false → session.Takes decode depth line) := by
  rw [replayLine_eq]
  split
  next hblank => simp [hblank, ReplaySummary.none]
  next hblank =>
    rw [ReplaySummary.failures_ofResult_eq_nil_iff, attemptLine, Takes]
    simp only [hblank, true_imp_iff]
    cases decode line with
    | error reason => simp
    | ok event => simp [mapError_eq_ok_iff]

/-- Nothing fails just when each line is taken by the session that it meets. -/
theorem failures_replayLines_eq_nil_iff {session : Session} {number : Nat} {lines : List String} :
    (session.replayLines decode depth number lines).2.failures = [] ↔
      ∀ front line back, lines = front ++ line :: back → Text.isBlank line = false →
        (session.replayLines decode depth number front).1.Takes decode depth line := by
  induction lines generalizing session number with
  | nil => simp [replayLines, ReplaySummary.none]
  | cons line rest ih =>
      simp only [replayLines_cons, ReplaySummary.append, List.append_eq_nil_iff, ih,
        failures_replayLine_eq_nil_iff]
      constructor
      · rintro ⟨hfirst, hrest⟩ front next back hsplit hblank
        cases front with
        | nil =>
            cases hsplit
            exact hfirst hblank
        | cons head front =>
            cases hsplit
            exact hrest front next back rfl hblank
      · intro htakes
        refine ⟨htakes [] line rest rfl, ?_⟩
        rintro front next back rfl
        exact htakes (line :: front) next back rfl

theorem applyWire_of_misread {session : Session} {event : WireEvent} {failure : Failure}
    (h : Event.ofWire event = .error failure) :
    session.applyWire depth event = ⟨session, .error failure, []⟩ := by
  rw [applyWire, Store.applyWire, h]
  rfl

variable (depth) in
/-- A line with an event that is no document fares as the event does by itself. -/
theorem attemptLine_of_not_isDocument (session : Session) (number : Nat) {line : String}
    {event : WireEvent} (hdecode : decode line = .ok event) (hplain : event.isDocument = false) :
    (session.attemptLine decode depth line).1 = (session.applyWire depth event).session ∧
      (ReplaySummary.ofResult number (session.attemptLine decode depth line).2).Counts
        (.ofResults [(session.applyWire depth event).result]) := by
  simp only [attemptLine, hdecode, applyDocument_of_not_isDocument depth session hplain]
  cases hread : Event.ofWire event with
  | error failure =>
      rw [applyWire_of_misread hread]
      exact ⟨rfl, rfl, rfl, rfl⟩
  | ok checked => exact ⟨rfl, .ofReport number _⟩

variable (depth) in
/-- Lines with events that are no documents are replayed as these events one by one. -/
theorem replayLines_eq_performAll (session : Session) (number : Nat) {lines : List String}
    {events : List WireEvent}
    (hdecode : (lines.filter (!Text.isBlank ·)).map decode = events.map .ok)
    (hplain : ∀ event ∈ events, event.isDocument = false) :
    let single := session.performAll depth (events.map .applyWire)
    let replayed := session.replayLines decode depth number lines
    replayed.1 = single.session ∧ replayed.2.Counts (.ofResults single.result) := by
  intro single replayed
  induction lines generalizing session number events with
  | nil =>
      obtain rfl : events = [] := List.map_eq_nil_iff.mp hdecode.symm
      exact ⟨rfl, rfl, rfl, rfl⟩
  | cons line rest ih =>
      have hreplayed : replayed = session.replayLines decode depth number (line :: rest) := rfl
      rw [replayLines_cons, replayLine_eq] at hreplayed
      rw [hreplayed]
      by_cases hblank : Text.isBlank line = true
      · rw [List.filter_cons_of_neg (by simp [hblank])] at hdecode
        simp only [hblank, if_true, ReplaySummary.none_append]
        exact ih session (number + 1) hdecode hplain
      · rw [List.filter_cons_of_pos (by simp [hblank]), List.map_cons] at hdecode
        obtain ⟨event, others, rfl, hevent, hothers⟩ := List.map_eq_cons_iff.mp hdecode.symm
        obtain ⟨hfirst, hrest⟩ := List.forall_mem_cons.mp hplain
        obtain ⟨hsession, hcounts⟩ :=
          session.attemptLine_of_not_isDocument depth number hevent.symm hfirst
        simp only [hblank, hsession]
        obtain ⟨hafter, hlater⟩ :=
          ih (session.applyWire depth event).session (number + 1) hothers.symm hrest
        exact ⟨hafter, hcounts.append hlater⟩

/-- The program ends well just when no line of the log fails. -/
theorem exitCode_replay {value : String → Except Json.Fault Json}
    {files : String → FileContent} {origin : Session} {snapshot events text log : String}
    {count : Nat} (hsnapshot : files snapshot = .text text)
    (hload : (origin.bulkLoadText value text).result = .ok count)
    (hevents : files events = .text log) :
    (CommandLine.replay ⟨value, decode⟩ depth files origin snapshot events).exitCode = 0 ↔
      ((origin.bulkLoadText value text).session.replay decode depth log).2.failures = [] := by
  simp only [CommandLine.replay, hsnapshot, hload, hevents]
  cases ((origin.bulkLoadText value text).session.replay decode depth log).2.failures <;> simp

end Lines

/-- However lines are decoded, a replay is a fold over the lines of the log: it goes on where it was
cut, its failures come in order, there are none just when each line is taken, and without documents
it is a batch. -/
theorem replay_as_fold (decode : String → Except String WireEvent) (depth : Nat)
    (session : Session) :
    (∀ front back, Text.IsClosed front →
      let first := session.replay decode depth front
      let second := first.1.replay decode depth back
      let whole := session.replay decode depth (front ++ back)
      whole.1 = second.1 ∧ whole.2.applied = first.2.applied + second.2.applied ∧
        whole.2.noOps = first.2.noOps + second.2.noOps ∧
        whole.2.failures =
          first.2.failures ++ second.2.failures.map (.shift (Text.lines front).length)) ∧
    ∀ log,
      let replayed := session.replay decode depth log
      let lines := Text.lines log
      replayed.2.failures.Pairwise (·.line ≤ ·.line) ∧
      (∀ failure ∈ replayed.2.failures, 1 ≤ failure.line ∧ failure.line ≤ lines.length) ∧
      (replayed.2.failures = [] ↔
        ∀ front line back, lines = front ++ line :: back → Text.isBlank line = false →
          (session.replayLines decode depth 1 front).1.Takes decode depth line) ∧
      (∀ value files origin snapshot events text count, files snapshot = .text text →
        let load := bulkLoadText value origin text
        load.result = .ok count → load.session = session → files events = .text log →
        ((CommandLine.replay ⟨value, decode⟩ depth files origin snapshot events).exitCode = 0 ↔
          replayed.2.failures = [])) ∧
      ∀ events : List WireEvent,
        (lines.filter (!Text.isBlank ·)).map decode = events.map .ok →
        (∀ event ∈ events, event.isDocument = false) →
        replayed.1 = (session.applyBatch depth events).session ∧
          replayed.2.Counts (session.applyBatch depth events).result := by
  refine ⟨fun front back hclosed => ?_, fun log => ?_⟩
  · intro first second whole
    have hwhole : whole =
        (second.1, first.2.append (second.2.shift (Text.lines front).length)) := by
      simp only [whole, replay, Text.lines_append hclosed, replayLines_append, replayLines_add]
      rfl
    rw [hwhole]
    exact ⟨rfl, rfl, rfl, rfl⟩
  · intro replayed lines
    obtain ⟨hpairwise, hwithin⟩ := session.failures_replayLines decode depth 1 lines
    refine ⟨hpairwise, fun failure hmem => ?_, failures_replayLines_eq_nil_iff, ?_,
      fun events hdecode hplain => ?_⟩
    · have hline := hwithin failure hmem
      omega
    · intro value files origin snapshot events text count hsnapshot load hload hsession hevents
      rw [exitCode_replay hsnapshot hload hevents]
      exact iff_of_eq (congrArg (fun reached => (reached.replay decode depth log).2.failures = [])
        hsession)
    · obtain ⟨hsession, hcounts⟩ :=
        session.replayLines_eq_performAll depth 1 hdecode hplain
      obtain ⟨hbatch, hreport, _⟩ := session.applyBatch_eq_performAll depth events
      rw [← hreport] at hcounts
      exact ⟨hsession.trans hbatch.symm, hcounts⟩

/-- The lamp is switched on, and a blank line follows. -/
def switchLog : String := "[\"set\",\"lamp.on\",true]\r\n\n"

/-- A property that is not declared is deleted, then the switch. -/
def deleteLog : String := "[\"delete\",\"lamp.off\"]\n[\"delete\",\"lamp.on\"]"

theorem replay_as_fold_lamp :
    let readers := CommandLine.builtinReaders
    let session := watchedLamp fun _ => []
    let whole := session.replay readers.event 0 (switchLog ++ deleteLog)
    let first := session.replay readers.event 0 switchLog
    let files := fun path =>
      FileContent.text (if path = "log" then switchLog ++ deleteLog else "\x7b\x7d")
    let load := session.bulkLoadText readers.value "\x7b\x7d"
    let events := [switchOn, .delete "lamp.off", .delete "lamp.on"]
    Text.IsClosed switchLog ∧
      whole.2.failures = first.2.failures ++
        (first.1.replay readers.event 0 deleteLog).2.failures.map (.shift 2) ∧
      whole.2.failures.map (·.line) = [3] ∧ (∀ failure ∈ whole.2.failures, failure.line ≤ 4) ∧
      load.result = .ok 0 ∧ load.session = session ∧
      (CommandLine.replay readers 0 files session "snapshot" "log").exitCode ≠ 0 ∧
      ((Text.lines (switchLog ++ deleteLog)).filter (!Text.isBlank ·)).map readers.event =
        events.map .ok ∧
      (∀ event ∈ events, event.isDocument = false) ∧
      whole.1 = (session.applyBatch 0 events).session ∧
      whole.2.Counts (session.applyBatch 0 events).result := by
  intro readers session whole first files load events
  have hclosed : Text.IsClosed switchLog := Or.inr ⟨"[\"set\",\"lamp.on\",true]\r\n", rfl⟩
  have hfront : (Text.lines switchLog).length = 2 := by decide +kernel
  have hlines : (Text.lines (switchLog ++ deleteLog)).length = 4 := by decide +kernel
  have hfailed : whole.2.failures.map (·.line) = [3] := by
    simp only [whole, session]
    decide +kernel
  have hdecode : ((Text.lines (switchLog ++ deleteLog)).filter (!Text.isBlank ·)).map
      CommandLine.builtinReaders.event =
        [switchOn, .delete "lamp.off", .delete "lamp.on"].map .ok := by
    decide +kernel
  have hplain : ∀ event ∈ events, event.isDocument = false := by decide
  obtain ⟨hfold, hreplay⟩ := replay_as_fold readers.event 0 session
  obtain ⟨_, _, _, hsum⟩ := hfold switchLog deleteLog hclosed
  obtain ⟨_, hwithin, _, hexit, hbatch⟩ := hreplay (switchLog ++ deleteLog)
  rw [hfront] at hsum
  rw [hlines] at hwithin
  obtain ⟨hsession, hcounts⟩ := hbatch events hdecode hplain
  have hsnapshot : files "snapshot" = .text "\x7b\x7d" := by simp [files]
  have hload : load.result = .ok 0 := rfl
  have hsame : load.session = session := rfl
  have hevents : files "log" = .text (switchLog ++ deleteLog) := by simp [files]
  have hcode : (CommandLine.replay readers 0 files session "snapshot" "log").exitCode ≠ 0 := by
    rw [ne_eq, hexit readers.value files session "snapshot" "log" _ 0 hsnapshot hload hsame hevents]
    intro hnone
    rw [hnone] at hfailed
    cases hfailed
  exact ⟨hclosed, hsum, hfailed, fun failure hmem => (hwithin failure hmem).2, hload, hsame, hcode,
    hdecode, hplain, hsession, hcounts⟩

end Session

end PropertyTree
