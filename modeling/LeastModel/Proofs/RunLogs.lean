import LeastModel.Proofs.GroupLogs
import LeastModel.Proofs.RecordedEvents

/-!
# The log of a run

A run tells that the program is loaded, that its rules are grouped, then the
logs of its groups and which queries have been answered. Where it fails, the
word breaks off (`Program.Log` has one case for each place). Whatever happens,
the word is closed by one note of how the run ended.

## Main statement

`Program.evaluateObserved_log`: every run adds to what was recorded before,
however many runs that was, the events that tell of such a word, and ends as
without an observer.
-/

namespace LeastModel

variable {digest : Digest}

def Answer.milestone (answer : Answer digest) : Milestone :=
  .queryAnswered answer.query answer.relation.size

namespace Program

/-- The queries are answered in turn, up to the first that fails. -/
theorem answerQueries_logs (db : Database digest) (queries : List Atom) :
    ∃ answered : List (Answer digest),
      (answerQueries db queries).Logs (answered.map (·.milestone))
        (fun answers => answered = answers ∧ answered.map (·.query) = queries)
        (∃ query rest, queries = answered.map (·.query) ++ query :: rest) := by
  induction queries with
  | nil => exact ⟨[], .done _ (tells_pure _) ⟨rfl, rfl⟩⟩
  | cons query queries ih =>
      obtain ⟨answered, hrest⟩ := ih
      rw [answerQueries]
      cases (db.query query).mapError (Fault.inQuery query) with
      | error fault =>
          exact ⟨[], .failed fault (Run.tells_ofExcept _).bind_error ⟨query, queries, rfl⟩⟩
      | ok relation =>
          refine ⟨⟨query, relation⟩ :: answered, .bind_ok (Run.tells_ofExcept _) ?_⟩
          refine .note_bind rfl (.bind_pure (hrest.imp ?_ ?_))
          · rintro _ ⟨rfl, rfl⟩
            exact ⟨rfl, rfl⟩
          · rintro ⟨failed, rest, rfl⟩
            exact ⟨failed, rest, rfl⟩

/-! ## Whole runs -/

def loaded (p : Program) (db : Database digest) : Milestone :=
  .programLoaded p.schemes.length p.facts.length db.tupleCount

def grouped (p : Program) : Milestone := .rulesGrouped p.rules.length (Plan.ofRules p.rules)

/-- The words that a run can tell before it is closed, by how far it comes. -/
inductive Log (options : Options) (p : Program) :
    Except Fault (Result digest) → List Milestone → Prop
  | notLoaded {fault : Fault}
      (hload : (Database.load p : Except Fault (Database digest)) = .error fault) :
      Log options p (.error fault) []
  | refused {fault : Fault} {db : Database digest} (hload : Database.load p = .ok db)
      (hvalidate : options.validateRules = true) (hvalid : db.validate p.rules = .error fault) :
      Log options p (.error fault) [p.loaded db]
  | stopped {fault : Fault} {db : Database digest} {groups : List GroupLog}
      (hload : Database.load p = .ok db)
      (hgroups : StopsAt (GroupLog.Complete options) (GroupLog.CutShort options)
        (Plan.ofRules p.rules).groups groups) :
      Log options p (.error fault) (p.loaded db :: p.grouped :: groups.flatMap (·.word))
  | unanswered {fault : Fault} {db : Database digest} {groups : List GroupLog}
      {answered : List (Answer digest)} {query : Atom} {rest : List Atom}
      (hload : Database.load p = .ok db)
      (hgroups : List.Forall₂ (GroupLog.Complete options) (Plan.ofRules p.rules).groups groups)
      (hqueries : p.queries = answered.map (·.query) ++ query :: rest) :
      Log options p (.error fault)
        (p.loaded db :: p.grouped :: (groups.flatMap (·.word) ++ answered.map (·.milestone)))
  | finished {result : Result digest} {db : Database digest} {groups : List GroupLog}
      (hload : Database.load p = .ok db)
      (hgroups : List.Forall₂ (GroupLog.Complete options) (Plan.ofRules p.rules).groups groups)
      (hstats : groups.map (·.stats) = result.groups)
      (hqueries : result.answers.map (·.query) = p.queries) :
      Log options p (.ok result)
        (p.loaded db :: p.grouped :: (groups.flatMap (·.word) ++ result.answers.map (·.milestone)))

/-- What a run tells once the rules have been let through. -/
theorem derivation_tells (options : Options) {p : Program} {db : Database digest}
    (hload : Database.load p = .ok db) :
    ∃ outcome word,
      Run.Tells (do
        Run.note (.rulesGrouped p.rules.length (Plan.ofRules p.rules))
        let (groups, db) ← evaluateGroups options (Plan.ofRules p.rules).groups db
        let answers ← answerQueries db p.queries
        return (⟨answers, groups, Plan.ofRules p.rules, db⟩ : Result digest)) outcome word ∧
      p.Log options outcome (p.loaded db :: word) := by
  obtain ⟨groups, ⟨r, hgroups, hcomplete, hstats⟩ | ⟨fault, hgroups, hstops⟩⟩ :=
    evaluateGroups_logs options (Plan.ofRules p.rules).groups (Database.load_spec hload).1
  · obtain ⟨answered, ⟨_, hanswers, rfl, hqueries⟩ | ⟨fault, hanswers, query, rest, hqueries⟩⟩ :=
      answerQueries_logs r.2 p.queries
    · exact ⟨_, _, (hgroups.bind_ok (hanswers.bind_pure _)).note_bind rfl,
        .finished hload hcomplete hstats hqueries⟩
    · exact ⟨_, _, (hgroups.bind_ok hanswers.bind_error).note_bind rfl,
        .unanswered hload hcomplete hqueries⟩
  · exact ⟨_, _, hgroups.bind_error.note_bind rfl, .stopped hload hstops⟩

theorem evaluateSteps_tells (options : Options) (p : Program) :
    ∃ outcome word, (p.evaluateSteps options : Run (Result digest)).Tells outcome word ∧
      p.Log options outcome word := by
  rw [evaluateSteps]
  cases hload : (Database.load p : Except Fault (Database digest)) with
  | error fault => exact ⟨_, [], (Run.tells_ofExcept _).bind_error, .notLoaded hload⟩
  | ok db =>
      obtain ⟨outcome, word, htells, hlog⟩ := derivation_tells options hload
      by_cases hvalidate : options.validateRules = true
      · simp only [hvalidate, if_true]
        cases hvalid : db.validate p.rules with
        | error fault =>
            have hchecked : (Run.ofExcept (db.validate p.rules)).Tells (.error fault) [] :=
              hvalid ▸ Run.tells_ofExcept _
            refine ⟨_, [p.loaded db], ?_, .refused hload hvalidate hvalid⟩
            exact (Run.tells_ofExcept _).bind_ok (hchecked.bind_error.note_bind rfl)
        | ok u =>
            have hchecked : (Run.ofExcept (db.validate p.rules)).Tells (.ok u) [] :=
              hvalid ▸ Run.tells_ofExcept _
            refine ⟨outcome, p.loaded db :: word, ?_, hlog⟩
            exact (Run.tells_ofExcept _).bind_ok ((hchecked.bind_ok htells).note_bind rfl)
      · simp only [hvalidate]
        refine ⟨outcome, p.loaded db :: word, ?_, hlog⟩
        exact (Run.tells_ofExcept _).bind_ok (htells.note_bind rfl)

end Program

/-! ### Passes on record -/

theorem RuleLog.countP_word (log : RuleLog) : log.word.countP (·.isPass) = 0 := by
  rw [List.countP_eq_zero]
  intro m hm
  rcases List.mem_append.mp hm with hjoin | hrule
  · obtain ⟨join, -, rfl⟩ := List.mem_map.mp hjoin
    exact Bool.false_ne_true
  · rw [List.mem_singleton.mp hrule]
    exact Bool.false_ne_true

theorem RuleLog.countP_flatMap_word (logs : List RuleLog) :
    (logs.flatMap (·.word)).countP (·.isPass) = 0 := by
  induction logs with
  | nil => rfl
  | cons log logs ih => rw [List.flatMap_cons, List.countP_append, log.countP_word, ih]

theorem PassLog.countP_words (group : Group) (n : Nat) (logs : List PassLog) :
    (words group n logs).countP (·.isPass) = logs.length := by
  induction logs generalizing n with
  | nil => rfl
  | cons log logs ih =>
      rw [words_cons, List.countP_append, ih, word, List.countP_append,
        RuleLog.countP_flatMap_word, List.length_cons]
      exact Nat.add_comm _ _

theorem GroupLog.Complete.countP_word {options : Options} {group : Group} {log : GroupLog}
    (h : log.Complete options group) : log.word.countP (·.isPass) = log.stats.passes := by
  have hcounted : log.stats.passes = log.passes.length := by simp [h.stats_eq]
  rw [GroupLog.word, h.cut_eq, hcounted, List.countP_cons_of_neg Bool.false_ne_true,
    List.countP_append, List.countP_append, PassLog.countP_words]
  rfl

theorem GroupLog.countP_flatMap_word {options : Options} {groups : List Group}
    {logs : List GroupLog} (h : List.Forall₂ (GroupLog.Complete options) groups logs) :
    (logs.flatMap (·.word)).countP (·.isPass) =
      Number.total ((logs.map (·.stats)).map (·.passes)) := by
  induction h with
  | nil => rfl
  | cons hlog _ ih =>
      rw [List.flatMap_cons, List.countP_append, hlog.countP_word, ih, List.map_cons,
        List.map_cons, Number.total_cons]

/-- What is told of an outcome: the fault, or the passes of all groups together
and what the database holds. -/
def Ending.ofOutcome : Except Fault (Result digest) → Ending
  | .error fault => .failed fault
  | .ok result =>
    .succeeded (Number.total (result.groups.map (·.passes))) result.database.tupleCount
      (result.database.relations.map (·.info))

theorem Program.Log.endingOf {options : Options} {p : Program}
    {outcome : Except Fault (Result digest)} {word : List Milestone}
    (h : p.Log options outcome word) (o : Observer) :
    Program.endingOf (o.start.seeAll word) outcome = .ofOutcome outcome := by
  cases h with
  | notLoaded | refused | stopped | unanswered => rfl
  | @finished result db groups hload hgroups hstats hqueries =>
      -- The count starts anew with the run, and only groups have passes to be counted.
      have hanswers : (result.answers.map (·.milestone)).countP (·.isPass) = 0 := by
        simp [List.countP_eq_zero, Answer.milestone, Milestone.isPass]
      have hcount := GroupLog.countP_flatMap_word hgroups
      rw [hstats] at hcount
      have hpasses := o.start.passes_seeAll (p.loaded db :: p.grouped ::
        (groups.flatMap (·.word) ++ result.answers.map (·.milestone)))
      rw [List.countP_cons_of_neg Bool.false_ne_true, List.countP_cons_of_neg Bool.false_ne_true,
        List.countP_append, hcount, hanswers] at hpasses
      rw [Program.endingOf, Ending.ofOutcome, hpasses]
      exact congrArg (Ending.succeeded · _ _) (Nat.zero_add _)

namespace Observer

/-- What an observer has seen after one more run. -/
def watch (digest : Digest) (o : Observer) (run : Options × Program) : Observer :=
  ((run.2.evaluateObserved run.1 : Run (Result digest)).run.run o).2

/-- A recording observer that has watched runs one after another. -/
def ofRuns (digest : Digest) (runs : List (Options × Program)) : Observer :=
  runs.foldl (watch digest) (.new true)

end Observer

namespace Program

/-- A run adds its word to what has been recorded, then the note of its end. -/
theorem appends_of_watch (options : Options) (p : Program) {o : Observer}
    (ho : o.recorder.listening = true) :
    ∃ word, p.Log options (p.evaluate options : Except Fault (Result digest)) word ∧
      o.recorder.Appends
        (word.map (·.toEvent) ++ [(Milestone.complete (.ofOutcome
          (p.evaluate options : Except Fault (Result digest)))).toEvent])
        (o.watch digest (options, p)).recorder := by
  obtain ⟨outcome, word, htells, hlog⟩ := @evaluateSteps_tells digest options p
  have houtcome : p.evaluate options = outcome :=
    (htells.yields (Observer.new false).start)
  have hstart : o.recorder.Appends [] o.start.recorder :=
    ⟨ho, (List.append_nil _).symm, (List.append_nil _).symm⟩
  have hend : o.watch digest (options, p) =
      (o.start.seeAll word).note (.complete (endingOf (o.start.seeAll word) outcome)) := by
    change (fun r : Except Fault (Result digest) × Observer =>
      r.2.note (.complete (endingOf r.2 r.1))) ((p.evaluateSteps options).run.run o.start) = _
    rw [htells o.start]
  rw [houtcome, hend, hlog.endingOf]
  exact ⟨word, hlog, (hstart.seeAll word).record _⟩

end Program

namespace Observer

theorem ofRuns_concat (digest : Digest) (runs : List (Options × Program))
    (run : Options × Program) :
    ofRuns digest (runs ++ [run]) = (ofRuns digest runs).watch digest run :=
  List.foldl_concat _ _ _ _

theorem listening_ofRuns (digest : Digest) (runs : List (Options × Program)) :
    (ofRuns digest runs).recorder.listening = true := by
  induction runs using List.reverseRecOn with
  | nil => rfl
  | append_singleton runs run ih =>
      obtain ⟨_, -, happends⟩ := @Program.appends_of_watch digest run.1 run.2 _ ih
      rw [ofRuns_concat]
      exact happends.listening

end Observer

/-- Whatever has been recorded before, a run that is watched ends as one that is
not, and adds events whose names and data tell how far it came, and at last how it
ended. Each pass goes through the rules of its group by their places in the program. -/
theorem Program.evaluateObserved_log (earlier : List (Options × Program)) (options : Options)
    (p : Program) :
    (p.evaluateObserved options : Run (Result digest)).outcome (.ofRuns digest earlier) =
        p.evaluate options ∧
      (∃ word events, p.Log options (p.evaluate options : Except Fault (Result digest)) word ∧
        List.Forall₂ Event.TellsOf events
          (word ++ [.complete (.ofOutcome (p.evaluate options : Except Fault (Result digest)))]) ∧
        (Observer.ofRuns digest earlier).recorder.Appends events
          (Observer.ofRuns digest (earlier ++ [(options, p)])).recorder) ∧
      ∀ group ∈ (Plan.ofRules p.rules).groups,
        group.indices.Pairwise (· < ·) ∧
          group.rules.map some = group.indices.map (p.rules[·]?) := by
  refine ⟨?_, ?_, ?_⟩
  · rw [p.outcome_evaluateObserved options, p.evaluate_eq_quiet options]
  · obtain ⟨word, hlog, happends⟩ :=
      @appends_of_watch digest options p _ (Observer.listening_ofRuns digest earlier)
    refine ⟨word, _, hlog, Milestone.forall₂_tellsOf _, ?_⟩
    rw [Observer.ofRuns_concat, List.map_append]
    exact happends
  · intro group hgroup
    refine ⟨?_, Plan.group_rules_eq hgroup⟩
    obtain ⟨component, hcomponent, rfl⟩ := Plan.mem_groups_ofRules.mp hgroup
    exact Graph.component_ascending hcomponent

end LeastModel
