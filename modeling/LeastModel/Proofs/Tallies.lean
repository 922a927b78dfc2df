import LeastModel.Proofs.RunLogs

/-!
# The counts of a run

A result tells how many tuples each group added and how many passes it made. The
first number is the growth of the database while the group was evaluated, so that
together they are what the run added to the loaded database. The events that are
recorded of the run give the same numbers level by level: rules, passes and
groups, and the passes of all groups at the end, whatever has been recorded
before. They are nested as in the logs from which they come (`GroupLog.events`),
and their numbers are those found in their data.

## Main statement

`Program.exists_tallies`: these counts add up in every run that succeeds.
-/

namespace LeastModel

variable {digest : Digest}

/-! ## The events of rules, passes, groups and runs -/

/-- What is recorded of one application of a rule. -/
structure RuleEvents where
  joins : List Event
  evaluated : Event

def RuleEvents.word (events : RuleEvents) : List Event := events.joins ++ [events.evaluated]

/-- What is recorded of a pass over a group. -/
structure PassEvents where
  rules : List RuleEvents
  ended : Event

def PassEvents.word (events : PassEvents) : List Event :=
  events.rules.flatMap (·.word) ++ [events.ended]

/-- What is recorded of a group. -/
structure GroupEvents where
  begun : Event
  passes : List PassEvents
  ended : Event

def GroupEvents.word (events : GroupEvents) : List Event :=
  events.begun :: (events.passes.flatMap (·.word) ++ [events.ended])

/-- What is recorded of a run. -/
structure RunEvents where
  loaded : Event
  grouped : Event
  groups : List GroupEvents
  answered : List Event
  ended : Event

def RunEvents.word (events : RunEvents) : List Event :=
  events.loaded :: events.grouped ::
    (events.groups.flatMap (·.word) ++ events.answered ++ [events.ended])

/-! ## Counts in events -/

/-- No more tuples are new than have been derived. -/
structure RuleEvents.AddsUp (rule : Rule) (events : RuleEvents) : Prop where
  joins : ∀ e ∈ events.joins, e.name = "join/hash"
  name_eq : events.evaluated.name = "rule/evaluated"
  rule_eq : events.evaluated.get? "rule" = some (.text rule.render)
  added_le : events.evaluated.int "tuples.added" ≤ events.evaluated.int "tuples.derived"

/-- A pass adds what its rules add. -/
structure PassEvents.AddsUp (group : Group) (events : PassEvents) : Prop where
  rules : List.Forall₂ RuleEvents.AddsUp group.rules events.rules
  name_eq : events.ended.name = "group/pass"
  group_eq : events.ended.get? "group" = some (.text group.render)
  added_eq : events.ended.int "tuples.added" =
    (events.rules.map (·.evaluated.int "tuples.added")).sum

/-- A group adds what its passes add, and this is what is counted of it. -/
structure GroupEvents.AddsUp (group : Group) (stats : GroupStats) (events : GroupEvents) :
    Prop where
  begun_eq : events.begun.name = "group/begin" ∧
    events.begun.get? "group" = some (.text group.render)
  passes : ∀ pass ∈ events.passes, pass.AddsUp group
  name_eq : events.ended.name = "group/complete"
  group_eq : events.ended.get? "group" = some (.text group.render)
  added_eq : events.ended.int "tuples.added" =
    (events.passes.map (·.ended.int "tuples.added")).sum
  stats_added : events.ended.get? "tuples.added" = some (.int stats.added)
  stats_passes : events.ended.get? "passes" = some (.int stats.passes) ∧
    stats.passes = events.passes.length

/-- The event tells how many tuples answer a query. -/
def Answer.RecordedAs (answer : Answer digest) (e : Event) : Prop :=
  e.name = ("query/answered" : Bytes) ∧
    e.get? "query" = some (.text answer.query.render) ∧
    e.get? "tuples.count" = some (.int answer.relation.size)

/-- What is recorded of a run that succeeds has the counts of the result. -/
structure RunEvents.AddsUp (db : Database digest) (result : Result digest)
    (events : RunEvents) : Prop where
  loaded : events.loaded.name = "program/loaded" ∧
    events.loaded.get? "tuples.count" = some (.int db.tupleCount)
  grouped : events.grouped.name = "rules/grouped"
  groups_length : result.groups.length = result.plan.groups.length
  groups : List.Forall₂ (fun counted events => GroupEvents.AddsUp counted.1 counted.2 events)
    (result.plan.groups.zip result.groups) events.groups
  answered : List.Forall₂ Answer.RecordedAs result.answers events.answered
  ended : events.ended.name = "evaluation/complete" ∧
    events.ended.get? "success" = some (.flag true)
  /-- At the end the passes of this run are counted, and no others. -/
  passes_total : events.ended.get? "passes.total" =
    some (.int (Number.total (result.groups.map (·.passes))))
  tuples_count : events.ended.get? "tuples.count" = some (.int result.database.tupleCount)

/-! ## The events of logs -/

theorem sum_map_natCast {α : Type} (f : α → Nat) (xs : List α) :
    (xs.map fun x => (f x : Int)).sum = (Number.total (xs.map f) : Int) := by
  induction xs with
  | nil => rfl
  | cons x xs ih => rw [List.map_cons, List.sum_cons, ih, List.map_cons, Number.total_cons,
      Int.natCast_add]

namespace RuleLog

def events (log : RuleLog) : RuleEvents where
  joins := log.joins.map (·.milestone.toEvent)
  evaluated := (Milestone.ruleEvaluated log.rule log.derived log.added).toEvent

theorem word_events (log : RuleLog) : log.events.word = log.word.map (·.toEvent) := by
  rw [word, List.map_append, List.map_map]
  rfl

theorem int_added (log : RuleLog) : log.events.evaluated.int "tuples.added" = log.added := by
  obtain ⟨-, -, -, hadded⟩ :=
    (Milestone.ruleEvaluated log.rule log.derived log.added).toEvent_tellsOf
  exact Event.int_of_get? hadded

theorem Complete.addsUp {options : Options} {rule : Rule} {log : RuleLog}
    (h : log.Complete options rule) : log.events.AddsUp rule := by
  obtain ⟨hname, hrule, hderived, hadded⟩ :=
    (Milestone.ruleEvaluated log.rule log.derived log.added).toEvent_tellsOf
  constructor
  case joins =>
    intro e he
    obtain ⟨join, -, rfl⟩ := List.mem_map.mp he
    exact (Milestone.toEvent_tellsOf (.joined join.left join.right join.result)).1
  case name_eq => exact hname
  case rule_eq => exact h.rule_eq ▸ hrule
  case added_le =>
    rw [log.int_added, events, Event.int_of_get? hderived]
    exact Int.ofNat_le.mpr h.added_le

end RuleLog

namespace PassLog

/-- The events of the `n`-th pass over a group. -/
def events (group : Group) (n : Nat) (log : PassLog) : PassEvents where
  rules := log.rules.map (·.events)
  ended := (Milestone.groupPass group n log.added).toEvent

theorem word_events (group : Group) (n : Nat) (log : PassLog) :
    (log.events group n).word = (log.word group n).map (·.toEvent) := by
  rw [word, List.map_append, List.map_flatMap, PassEvents.word, events, List.flatMap_map]
  simp only [RuleLog.word_events]
  rfl

theorem int_added (group : Group) (n : Nat) (log : PassLog) :
    (log.events group n).ended.int "tuples.added" = log.added := by
  obtain ⟨-, -, -, hadded⟩ := (Milestone.groupPass group n log.added).toEvent_tellsOf
  exact Event.int_of_get? hadded

theorem Complete.addsUp {options : Options} {group : Group} {log : PassLog}
    (h : log.Complete options group) (n : Nat) : (log.events group n).AddsUp group := by
  obtain ⟨hname, hgroup, -, -⟩ := (Milestone.groupPass group n log.added).toEvent_tellsOf
  constructor
  case rules =>
    rw [events, List.forall₂_map_right_iff]
    exact h.rules.imp fun _ _ hrule => hrule.addsUp
  case name_eq => exact hname
  case group_eq => exact hgroup
  case added_eq =>
    rw [log.int_added, h.added_eq, ← sum_map_natCast, events, List.map_map]
    simp only [Function.comp_def, RuleLog.int_added]

end PassLog

namespace GroupLog

def events (log : GroupLog) : GroupEvents where
  begun := (Milestone.groupBegin log.group).toEvent
  passes := (log.passes.zipIdx 1).map fun (pass, n) => pass.events log.group n
  ended := (Milestone.groupComplete log.group log.stats.passes log.stats.added).toEvent

theorem word_events {log : GroupLog} (h : log.cut = []) :
    log.events.word = log.word.map (·.toEvent) := by
  rw [word, h, GroupEvents.word, events, List.flatMap_map, PassLog.words]
  simp only [PassLog.word_events, List.map_cons, List.map_append, List.map_flatMap,
    List.flatMap_nil, List.append_nil, List.map_nil]

theorem Complete.addsUp {options : Options} {group : Group} {log : GroupLog}
    (h : log.Complete options group) : log.events.AddsUp group log.stats := by
  obtain rfl := h.group_eq
  obtain ⟨hbegun, hbegunGroup, -⟩ := (Milestone.groupBegin log.group).toEvent_tellsOf
  obtain ⟨hname, hgroup, hpasses, hadded⟩ :=
    (Milestone.groupComplete log.group log.stats.passes log.stats.added).toEvent_tellsOf
  constructor
  case begun_eq => exact ⟨hbegun, hbegunGroup⟩
  case passes =>
    intro pass hpass
    obtain ⟨⟨passLog, n⟩, hmem, rfl⟩ := List.mem_map.mp hpass
    exact (h.passes passLog (List.fst_mem_of_mem_zipIdx hmem)).addsUp n
  case name_eq => exact hname
  case group_eq => exact hgroup
  case added_eq =>
    rw [events, Event.int_of_get? hadded, h.stats_eq, GroupStats.added_after_initial,
      ← sum_map_natCast, List.map_map, ← List.zipIdx_map_fst 1 log.passes, List.map_map]
    simp only [Function.comp_def, PassLog.int_added, List.zipIdx_map_fst]
  case stats_added => exact hadded
  case stats_passes =>
    refine ⟨hpasses, ?_⟩
    rw [h.stats_eq, GroupStats.passes_after_initial]
    simp [events]

theorem forall₂_addsUp {options : Options} {groups : List Group} {logs : List GroupLog}
    (h : List.Forall₂ (GroupLog.Complete options) groups logs) :
    List.Forall₂ (fun counted events => GroupEvents.AddsUp counted.1 counted.2 events)
      (groups.zip (logs.map (·.stats))) (logs.map (·.events)) := by
  induction h with
  | nil => exact .nil
  | cons hlog _ ih => exact .cons hlog.addsUp ih

theorem word_flatMap_events {options : Options} {groups : List Group} {logs : List GroupLog}
    (h : List.Forall₂ (GroupLog.Complete options) groups logs) :
    (logs.map (·.events)).flatMap (·.word) = (logs.flatMap (·.word)).map (·.toEvent) := by
  induction h with
  | nil => rfl
  | cons hlog _ ih =>
      rw [List.map_cons, List.flatMap_cons, ih, word_events hlog.cut_eq, List.flatMap_cons,
        List.map_append]

end GroupLog

namespace Program

/-- The counts of a result of a program, where `db` is the loaded database. -/
structure Tallies (options : Options) (p : Program) (db : Database digest)
    (result : Result digest) : Prop where
  plan_eq : result.plan = Plan.ofRules p.rules
  /-- There are counts for each group of the plan, in order. A group adds as many
  tuples as it counts, to heads of its rules only. -/
  groups : Group.Tallied options result.plan.groups db result.groups result.database
  total_eq :
    result.database.tupleCount = db.tupleCount + Number.total (result.groups.map (·.added))
  recorded : ∀ earlier : List (Options × Program),
    (p.evaluateObserved options).outcome (.ofRuns digest earlier) = .ok result ∧
      ∃ events : RunEvents, RunEvents.AddsUp db result events ∧
        (Observer.ofRuns digest earlier).recorder.Appends events.word
          (Observer.ofRuns digest (earlier ++ [(options, p)])).recorder

/-- The events of a log of a run that succeeds add up. -/
theorem Log.exists_events {options : Options} {p : Program} {db : Database digest}
    (hload : Database.load p = .ok db) {result : Result digest}
    (hplan : result.plan = Plan.ofRules p.rules) {word : List Milestone}
    (h : p.Log options (.ok result) word) :
    ∃ events : RunEvents, RunEvents.AddsUp db result events ∧
      events.word = word.map (·.toEvent) ++
        [(Milestone.complete (.ofOutcome (.ok result))).toEvent] := by
  cases h with
  | @finished _ db' logs hload' hgroups hstats hqueries =>
      cases hload.symm.trans hload'
      obtain ⟨hloaded, -, -, htuples⟩ := (p.loaded db).toEvent_tellsOf
      obtain ⟨hended, hsuccess, htotal, -, hcount, -⟩ :=
        (Milestone.complete (.ofOutcome (.ok result))).toEvent_tellsOf
      refine ⟨⟨(p.loaded db).toEvent, p.grouped.toEvent, logs.map (·.events),
        result.answers.map (·.milestone.toEvent),
        (Milestone.complete (.ofOutcome (.ok result))).toEvent⟩, ?_, ?_⟩
      · constructor
        case loaded => exact ⟨hloaded, htuples⟩
        case grouped => exact p.grouped.toEvent_tellsOf.1
        case groups_length =>
          rw [← hstats, List.length_map, hplan, hgroups.length_eq]
        case groups =>
          rw [← hstats, hplan]
          exact GroupLog.forall₂_addsUp hgroups
        case answered =>
          rw [List.forall₂_map_right_iff]
          exact List.forall₂_same.mpr fun answer _ => answer.milestone.toEvent_tellsOf
        case ended => exact ⟨hended, hsuccess⟩
        case passes_total => exact htotal
        case tuples_count => exact hcount
      · rw [RunEvents.word, GroupLog.word_flatMap_events hgroups]
        simp [Function.comp_def]

/-- In every run that succeeds the counts add up, whatever the options and
whatever has been recorded before. -/
theorem exists_tallies {options : Options} {p : Program} {result : Result digest}
    (h : p.evaluate options = .ok result) :
    ∃ db, Database.load p = .ok db ∧ p.Tallies options db result := by
  have hquiet := h
  rw [evaluate_eq_quiet] at hquiet
  obtain ⟨db, counts, last, answers, hload, hgroups, hanswers, rfl⟩ :=
    Quiet.exists_of_evaluate hquiet
  have hdb := (Database.load_spec hload).1
  have htallied := Quiet.tallied_of_evaluateGroups hdb hgroups
  refine ⟨db, hload, rfl, htallied, (htallied.gains hdb).tupleCount_eq, ?_⟩
  intro earlier
  refine ⟨(p.outcome_evaluateObserved options _).trans hquiet, ?_⟩
  obtain ⟨word, hlog, happends⟩ :=
    @appends_of_watch digest options p _ (Observer.listening_ofRuns digest earlier)
  rw [h] at hlog happends
  obtain ⟨events, hadds, hword⟩ := hlog.exists_events hload rfl
  refine ⟨events, hadds, ?_⟩
  rw [Observer.ofRuns_concat, hword]
  exact happends

/-- Two groups with the same head: one step along an edge, and further steps. -/
def sharedHeads : Program where
  schemes := [⟨"edge", [.identifier "a", .identifier "b"]⟩,
    ⟨"reach", [.identifier "a", .identifier "b"]⟩]
  facts := [⟨"edge", [.constant "1", .constant "2"]⟩, ⟨"edge", [.constant "2", .constant "3"]⟩]
  rules := [⟨⟨"reach", [.identifier "x", .identifier "y"]⟩,
      [⟨"edge", [.identifier "x", .identifier "y"]⟩]⟩,
    ⟨⟨"reach", [.identifier "x", .identifier "z"]⟩,
      [⟨"reach", [.identifier "x", .identifier "y"]⟩,
        ⟨"edge", [.identifier "y", .identifier "z"]⟩]⟩]
  queries := [⟨"reach", [.constant "1", .identifier "y"]⟩]

theorem exists_tallies_sharedHeads :
    ∃ result : Result Xxh64.digest,
      sharedHeads.evaluate { traceJoins := true } = .ok result ∧
        result.groups = [⟨[0], false, 1, 2⟩, ⟨[1], true, 2, 1⟩] ∧
        ∃ db, Database.load sharedHeads = .ok db ∧
          sharedHeads.Tallies { traceJoins := true } db result := by
  have hrun : (sharedHeads.evaluate { traceJoins := true } :
      Except Fault (Result Xxh64.digest)).toOption.map (·.groups) =
      some [⟨[0], false, 1, 2⟩, ⟨[1], true, 2, 1⟩] := by
    decide +kernel
  obtain ⟨result, hresult, hgroups⟩ := exists_ok_of_map_toOption hrun
  exact ⟨result, hresult, hgroups, exists_tallies hresult⟩

end Program

end LeastModel
