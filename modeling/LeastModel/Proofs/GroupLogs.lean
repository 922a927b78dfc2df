import LeastModel.Proofs.Gains
import LeastModel.Proofs.Telling

/-!
# Logs of rules, passes and groups

The milestones of the applications of rules stand within those of a pass, and
these within those of a group. A log is a record that keeps this nesting, and
`word` writes it out. It is complete when its part of the run came to its end,
and cut short when a failure ended it.

Every part of an evaluation is shown to tell the word of a log that fits its
outcome, from the joins of a body (`Rule.joinBody_logs`) up to the groups of a
plan (`Program.evaluateGroups_logs`). What is told of the tuples that are added
is right on each level: a pass adds what its rules add, and a group what its
passes add.
-/

namespace LeastModel

variable {digest : Digest}

/-! ## Logs of joins, rules, passes and groups -/

structure JoinLog where
  left : RelationInfo
  right : RelationInfo
  result : RelationInfo

def JoinLog.milestone (log : JoinLog) : Milestone := .joined log.left log.right log.result

structure RuleLog where
  rule : Rule
  joins : List JoinLog
  derived : Nat
  added : Nat

def RuleLog.word (log : RuleLog) : List Milestone :=
  log.joins.map (·.milestone) ++ [.ruleEvaluated log.rule log.derived log.added]

structure PassLog where
  rules : List RuleLog
  added : Nat

/-- The `n`-th pass over a group. -/
def PassLog.word (group : Group) (n : Nat) (log : PassLog) : List Milestone :=
  log.rules.flatMap (·.word) ++ [.groupPass group n log.added]

/-- Passes over a group, numbered from `n` on. -/
def PassLog.words (group : Group) (n : Nat) (logs : List PassLog) : List Milestone :=
  (logs.zipIdx n).flatMap fun numbered => numbered.1.word group numbered.2

@[simp] theorem PassLog.words_nil (group : Group) (n : Nat) : words group n [] = [] := rfl

@[simp] theorem PassLog.words_cons (group : Group) (n : Nat) (log : PassLog) (logs : List PassLog) :
    words group n (log :: logs) = log.word group n ++ words group (n + 1) logs := by
  rw [words, List.zipIdx_cons, List.flatMap_cons]
  rfl

/-- Besides the completed passes a log has the applications of a pass that a
failure ended. -/
structure GroupLog where
  group : Group
  passes : List PassLog
  cut : List RuleLog
  stats : GroupStats

def GroupLog.word (log : GroupLog) : List Milestone :=
  .groupBegin log.group :: (PassLog.words log.group 1 log.passes ++ log.cut.flatMap (·.word) ++
    [.groupComplete log.group log.stats.passes log.stats.added])

/-! ## Complete logs and logs cut short -/

/-- The first items are done one after another, then one stops. There is an
entry for each of these, and none for the items behind. -/
inductive StopsAt {α β : Type} (done stopped : α → β → Prop) : List α → List β → Prop
  | here {x : α} {y : β} {xs : List α} (h : stopped x y) : StopsAt done stopped (x :: xs) [y]
  | later {x : α} {y : β} {xs : List α} {ys : List β} (h : done x y)
      (hrest : StopsAt done stopped xs ys) : StopsAt done stopped (x :: xs) (y :: ys)

/-- Of `n` joins, how many are told of. -/
def Options.traced (options : Options) (n : Nat) : Nat := if options.traceJoins then n else 0

@[simp] theorem Options.traced_zero (options : Options) : options.traced 0 = 0 := by
  simp [traced]

def GroupStats.begin (stats : GroupStats) : GroupStats := { stats with passes := stats.passes + 1 }

namespace RuleLog

/-- There is a join for every body atom after the first. -/
structure Complete (options : Options) (rule : Rule) (log : RuleLog) : Prop where
  rule_eq : log.rule = rule
  joins_length : log.joins.length = options.traced (rule.body.length - 1)
  added_le : log.added ≤ log.derived

structure CutShort (options : Options) (rule : Rule) (log : RuleLog) : Prop where
  rule_eq : log.rule = rule
  joins_length : log.joins.length ≤ options.traced (rule.body.length - 1)
  derived_eq : log.derived = 0
  added_eq : log.added = 0

end RuleLog

structure PassLog.Complete (options : Options) (group : Group) (log : PassLog) : Prop where
  rules : List.Forall₂ (RuleLog.Complete options) group.rules log.rules
  added_eq : log.added = Number.total (log.rules.map (·.added))

namespace GroupLog

structure Complete (options : Options) (group : Group) (log : GroupLog) : Prop where
  group_eq : log.group = group
  passes : ∀ pass ∈ log.passes, pass.Complete options group
  passes_ne_nil : log.passes ≠ []
  cut_eq : log.cut = []
  stats_eq : log.stats = (GroupStats.initial group).after (log.passes.map (·.added))

/-- After some passes, either no further pass was allowed, or a rule failed
within one. A pass is counted as soon as it begins. -/
structure CutShort (options : Options) (group : Group) (log : GroupLog) : Prop where
  group_eq : log.group = group
  passes : ∀ pass ∈ log.passes, pass.Complete options group
  reason :
    log.cut = [] ∧ log.stats = (GroupStats.initial group).after (log.passes.map (·.added)) ∨
    StopsAt (RuleLog.Complete options) (RuleLog.CutShort options) group.rules log.cut ∧
      log.stats = ((GroupStats.initial group).after (log.passes.map (·.added))).begin

end GroupLog

/-! ## What the parts of an evaluation tell -/

namespace Rule

/-- The joins that are left to do. The first atom has nothing to be joined with. -/
def joinsLeft (atoms : List Atom) : Option (Relation digest) → Nat
  | none => atoms.length - 1
  | some _ => atoms.length

/-- All of the joins left are told of, unless an atom fails. -/
theorem joinBody_logs (options : Options) (db : Database digest) (rule : Rule)
    (atoms : List Atom) (joined : Option (Relation digest)) :
    ∃ joins : List JoinLog,
      (rule.joinBody options db atoms joined).Logs (joins.map (·.milestone))
        (fun _ => joins.length = options.traced (joinsLeft atoms joined))
        (joins.length ≤ options.traced (joinsLeft atoms joined)) := by
  induction atoms generalizing joined with
  | nil => exact ⟨[], .done _ (tells_pure _) (by cases joined <;> simp [joinsLeft])⟩
  | cons atom atoms ih =>
      rw [joinBody]
      cases hquery : (db.query atom).mapError (Fault.inRule rule) with
      | error fault =>
          have hhere : (rule.attempt (db.query atom)).Tells (.error fault) [] :=
            hquery ▸ Run.tells_ofExcept _
          exact ⟨[], .failed fault hhere.bind_error (Nat.zero_le _)⟩
      | ok here =>
          have hhere : (rule.attempt (db.query atom)).Tells (.ok here) [] :=
            hquery ▸ Run.tells_ofExcept _
          cases joined with
          | none =>
              obtain ⟨joins, hrest⟩ := ih (some here)
              exact ⟨joins, .bind_ok hhere hrest⟩
          | some left =>
              -- Only here is there a join, and it is told of if joins are traced.
              obtain ⟨joins, hrest⟩ := ih (some (left.join here))
              by_cases htrace : options.traceJoins = true
              · refine ⟨⟨left.info, here.info, (left.join here).info⟩ :: joins, .bind_ok hhere ?_⟩
                simp only [htrace, if_true]
                refine .note_bind rfl (hrest.imp ?_ ?_)
                · intro _ hall
                  simpa [Options.traced, htrace, joinsLeft] using hall
                · intro hle
                  simpa [Options.traced, htrace, joinsLeft] using hle
              · refine ⟨joins, .bind_ok hhere ?_⟩
                simp only [htrace]
                refine hrest.imp ?_ ?_
                · intro _ hall
                  simpa [Options.traced, htrace] using hall
                · intro hle
                  simpa [Options.traced, htrace] using hle

theorem derive_logs (options : Options) (db : Database digest) (rule : Rule) :
    ∃ joins : List JoinLog,
      (rule.derive options db).Logs (joins.map (·.milestone))
        (fun _ => joins.length = options.traced (rule.body.length - 1))
        (joins.length ≤ options.traced (rule.body.length - 1)) := by
  obtain ⟨joins, hjoin⟩ := rule.joinBody_logs options db rule.body none
  refine ⟨joins, ?_⟩
  rw [derive]
  rcases hjoin with ⟨joined, htells, hall⟩ | ⟨fault, htells, hle⟩
  · rw [← List.append_nil (joins.map _)]
    refine .bind_ok htells ?_
    -- Whether the head fits or not, nothing more is told.
    cases joined with
    | none => exact .done _ (tells_pure _) hall
    | some joined =>
        refine .of_ofExcept_bind (fun projected => ?_) hall.le
        exact .of_ofExcept_bind (fun _ => .done _ (tells_pure _) hall) hall.le
  · exact .failed fault htells.bind_error hle

theorem apply_logs (options : Options) {db : Database digest} (hdb : db.WellFormed) (rule : Rule) :
    ∃ log : RuleLog,
      (rule.apply options db).Logs log.word
        (fun a => log.Complete options rule ∧ log.added = a.added ∧ a.database.WellFormed)
        (log.CutShort options rule) := by
  obtain ⟨joins, ⟨a, htells, hall⟩ | ⟨fault, htells, hle⟩⟩ := rule.derive_logs options db
  · have hderive : Quiet.derive db rule = .ok a :=
      (rule.derive_yields options db (.new false)).symm.trans (htells.yields (.new false))
    have hcomplete : RuleLog.Complete options rule ⟨rule, joins, a.derived, a.added⟩ :=
      ⟨rfl, hall, Quiet.added_le_of_derive hdb hderive⟩
    refine ⟨⟨rule, joins, a.derived, a.added⟩, .done a (htells.bind fun _ => rfl) ?_⟩
    exact ⟨hcomplete, rfl, (Quiet.gains_of_derive hdb hderive).wellFormed⟩
  · refine ⟨⟨rule, joins, 0, 0⟩, .failed fault (htells.bind fun _ => rfl) ?_⟩
    exact ⟨rfl, hle, rfl, rfl⟩

end Rule

namespace Group

theorem passFrom_logs (options : Options) (rules : List Rule) {db : Database digest}
    (hdb : db.WellFormed) (added : Nat) :
    ∃ logs : List RuleLog,
      (passFrom options rules db added).Logs (logs.flatMap (·.word))
        (fun r => List.Forall₂ (RuleLog.Complete options) rules logs ∧
          r.2 = added + Number.total (logs.map (·.added)) ∧ r.1.WellFormed)
        (StopsAt (RuleLog.Complete options) (RuleLog.CutShort options) rules logs) := by
  induction rules generalizing db added with
  | nil => exact ⟨[], .done _ (tells_pure _) ⟨.nil, rfl, hdb⟩⟩
  | cons rule rules ih =>
      obtain ⟨log, ⟨a, htells, hcomplete, hadded, hnext⟩ | ⟨fault, htells, hcut⟩⟩ :=
        rule.apply_logs options hdb
      · obtain ⟨logs, hrest⟩ := ih hnext (added + a.added)
        refine ⟨log :: logs, .bind_ok htells (hrest.imp ?_ (.later hcomplete))⟩
        rintro r ⟨hall, htotal, hlast⟩
        refine ⟨.cons hcomplete hall, ?_, hlast⟩
        rw [htotal, List.map_cons, Number.total_cons, hadded, Nat.add_assoc]
      · refine ⟨[log], .failed fault ?_ (.here hcut)⟩
        rw [List.flatMap_singleton]
        exact htells.bind_error

/-- A pass tells of its rules; the note of its end is the group's. -/
theorem pass_logs (options : Options) (group : Group) {db : Database digest}
    (hdb : db.WellFormed) :
    ∃ logs : List RuleLog,
      (group.pass options db).Logs (logs.flatMap (·.word))
        (fun r => PassLog.Complete options group ⟨logs, r.2⟩ ∧ r.1.WellFormed)
        (StopsAt (RuleLog.Complete options) (RuleLog.CutShort options) group.rules logs) := by
  obtain ⟨logs, hlogs⟩ := passFrom_logs options group.rules hdb 0
  refine ⟨logs, hlogs.imp ?_ id⟩
  rintro r ⟨hrules, hadded, hlast⟩
  exact ⟨⟨hrules, hadded.trans (Nat.zero_add _)⟩, hlast⟩

section Saturate

variable {options : Options} {group : Group} {room : Nat} {stats : GroupStats}
  {db next : Database digest} {added : Nat} {word : List Milestone}

theorem saturate_tells_last (hopen : options.exhausted stats.passes = false)
    (hpass : (group.pass options db).Tells (.ok (next, added)) word)
    (hlast : added = 0 ∨ group.recursive = false ∨ room = 0) :
    Tells (group.saturate options room stats db) (stats.after [added], .ok next)
      (word ++ [.groupPass group (stats.passes + 1) added]) := by
  rw [saturate, if_neg (by simp [hopen])]
  refine hpass.bind fun o => ?_
  by_cases hend : added = 0 ∨ (!group.recursive) = true
  · simp only [hend, if_true]
    rfl
  · have hroom : room = 0 := by
      rcases hlast with hnone | hrecursive | hroom
      · exact absurd (.inl hnone) hend
      · exact absurd (.inr (by simp [hrecursive])) hend
      · exact hroom
    simp only [hend, hroom, if_false]
    rfl

theorem saturate_tells_next (hopen : options.exhausted stats.passes = false)
    (hpass : (group.pass options db).Tells (.ok (next, added)) word)
    (hrecursive : group.recursive = true) (hadded : added ≠ 0)
    {r : GroupStats × Except Fault (Database digest)} {more : List Milestone}
    (hrest : Tells (group.saturate options room (stats.after [added]) next) r more) :
    Tells (group.saturate options (room + 1) stats db) r
      (word ++ .groupPass group (stats.passes + 1) added :: more) := by
  rw [saturate, if_neg (by simp [hopen])]
  refine hpass.bind fun o => ?_
  have hmore : ¬(added = 0 ∨ (!group.recursive) = true) := by
    simp [hrecursive, hadded]
  simp only [hmore, if_false]
  exact hrest _

end Saturate

/-- How passes from the counts `stats` on can end: with the last pass, at the
limit, or with a rule that fails within a further pass. -/
inductive Ended (options : Options) (group : Group) (stats : GroupStats) (passes : List PassLog) :
    List RuleLog → GroupStats → Except Fault (Database digest) → Prop
  | last {next : Database digest} (hpasses : passes ≠ []) (hnext : next.WellFormed) :
      Ended options group stats passes [] (stats.after (passes.map (·.added))) (.ok next)
  | limit {fault : Fault} :
      Ended options group stats passes [] (stats.after (passes.map (·.added))) (.error fault)
  | failure {cut : List RuleLog} {fault : Fault}
      (hcut : StopsAt (RuleLog.Complete options) (RuleLog.CutShort options) group.rules cut) :
      Ended options group stats passes cut (stats.after (passes.map (·.added))).begin
        (.error fault)

theorem Ended.cons {options : Options} {group : Group} {stats last : GroupStats}
    (pass : PassLog) {passes : List PassLog} {cut : List RuleLog}
    {outcome : Except Fault (Database digest)}
    (h : group.Ended options (stats.after [pass.added]) passes cut last outcome) :
    group.Ended options stats (pass :: passes) cut last outcome := by
  have hafter := stats.after_cons pass.added (passes.map (·.added))
  cases h with
  | last hpasses hnext => exact hafter ▸ .last (List.cons_ne_nil _ _) hnext
  | limit => exact hafter ▸ .limit
  | failure hcut => exact hafter ▸ .failure hcut

theorem saturate_tells (options : Options) (group : Group) (room : Nat) (stats : GroupStats)
    {db : Database digest} (hdb : db.WellFormed) :
    ∃ passes cut last outcome,
      Tells (group.saturate options room stats db) (last, outcome)
        (PassLog.words group (stats.passes + 1) passes ++ cut.flatMap (·.word)) ∧
      (∀ pass ∈ passes, pass.Complete options group) ∧
      group.Ended options stats passes cut last outcome := by
  -- The numbers of the passes go on from the counts, which grow as the room shrinks.
  induction room using Nat.strongRecOn generalizing stats db with
  | _ room ih =>
      by_cases hopen : options.exhausted stats.passes = true
      · rw [saturate, if_pos hopen]
        exact ⟨[], [], stats, _, tells_pure _, List.forall_mem_nil _, .limit⟩
      rw [Bool.not_eq_true] at hopen
      obtain ⟨logs, ⟨⟨next, added⟩, htells, hfirst, hnext⟩ | ⟨fault, htells, hcut⟩⟩ :=
        group.pass_logs options hdb
      · by_cases hlast : added = 0 ∨ group.recursive = false ∨ room = 0
        · have hend := saturate_tells_last hopen htells hlast
          refine ⟨[⟨logs, added⟩], [], stats.after [added], .ok next, ?_, ?_, ?_⟩
          · simpa [PassLog.word] using hend
          · exact List.forall_mem_singleton.mpr hfirst
          · exact .last (List.cons_ne_nil _ _) hnext
        · obtain ⟨hadded, hrecursive, hroom⟩ :
              added ≠ 0 ∧ group.recursive = true ∧ room ≠ 0 := by
            simpa using hlast
          obtain ⟨fewer, rfl⟩ := Nat.exists_eq_succ_of_ne_zero hroom
          obtain ⟨passes, cut, last, outcome, hmore, hpasses, hended⟩ :=
            ih fewer (Nat.lt_succ_self fewer) (stats.after [added]) hnext
          have hnumber : (stats.after [added]).passes = stats.passes + 1 := rfl
          rw [hnumber] at hmore
          have hall := saturate_tells_next hopen htells hrecursive hadded hmore
          refine ⟨⟨logs, added⟩ :: passes, cut, last, outcome, ?_, ?_, .cons _ hended⟩
          · simpa [PassLog.word] using hall
          · exact List.forall_mem_cons.mpr ⟨hfirst, hpasses⟩
      · refine ⟨[], logs, stats.begin, .error fault, ?_, List.forall_mem_nil _, .failure hcut⟩
        rw [saturate, if_neg (by simp [hopen]), ← List.append_nil (_ ++ _)]
        exact htells.bind (tells_pure _)

/-- A group tells of its beginning and its end, whether it succeeds or fails. -/
theorem evaluate_logs (options : Options) (group : Group) {db : Database digest}
    (hdb : db.WellFormed) :
    ∃ log : GroupLog,
      (group.evaluate options db).Logs log.word
        (fun r => log.Complete options group ∧ log.stats = r.1 ∧ r.2.WellFormed)
        (log.CutShort options group) := by
  obtain ⟨passes, cut, last, outcome, htells, hpasses, hended⟩ :=
    group.saturate_tells options db.capacity (.initial group) hdb
  have hbegin : Tells (modify (·.note (.groupBegin group))) PUnit.unit [.groupBegin group] :=
    fun _ => rfl
  have hword : (group.evaluate options db).Tells (outcome.map (last, ·))
      (GroupLog.word ⟨group, passes, cut, last⟩) :=
    hbegin.bind (htells.bind fun _ => rfl)
  refine ⟨⟨group, passes, cut, last⟩, ?_⟩
  cases hended with
  | last hne hnext => exact .done _ hword ⟨⟨rfl, hpasses, hne, rfl, rfl⟩, rfl, hnext⟩
  | limit => exact .failed _ hword ⟨rfl, hpasses, .inl ⟨rfl, rfl⟩⟩
  | failure hcut => exact .failed _ hword ⟨rfl, hpasses, .inr ⟨hcut, rfl⟩⟩

end Group

namespace Program

theorem evaluateGroups_logs (options : Options) (groups : List Group) {db : Database digest}
    (hdb : db.WellFormed) :
    ∃ logs : List GroupLog,
      (evaluateGroups options groups db).Logs (logs.flatMap (·.word))
        (fun r => List.Forall₂ (GroupLog.Complete options) groups logs ∧
          logs.map (·.stats) = r.1)
        (StopsAt (GroupLog.Complete options) (GroupLog.CutShort options) groups logs) := by
  induction groups generalizing db with
  | nil => exact ⟨[], .done _ (tells_pure _) ⟨.nil, rfl⟩⟩
  | cons group groups ih =>
      obtain ⟨log, ⟨r, htells, hcomplete, hstats, hnext⟩ | ⟨fault, htells, hcut⟩⟩ :=
        group.evaluate_logs options hdb
      · obtain ⟨logs, hrest⟩ := ih hnext
        refine ⟨log :: logs, .bind_ok htells (.bind_pure (hrest.imp ?_ (.later hcomplete)))⟩
        rintro more ⟨hall, hcounts⟩
        exact ⟨.cons hcomplete hall, by rw [List.map_cons, hstats, hcounts]⟩
      · refine ⟨[log], .failed fault ?_ (.here hcut)⟩
        rw [List.flatMap_singleton]
        exact htells.bind_error

end Program

end LeastModel
