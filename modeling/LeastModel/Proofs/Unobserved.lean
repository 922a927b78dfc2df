import LeastModel.Evaluation.Run
import LeastModel.Proofs.Relation

/-!
# Evaluation without an observer

An evaluation tells an observer what it does. The observer is never asked, so
the same evaluation can be written without it, as plain computations that may
fail; these are the functions of `Quiet`. `Program.outcome_evaluateObserved`
says that for every observer a watched run ends as the quiet one does, and the
rest of the theory is about quiet runs.
-/

namespace LeastModel

variable {digest : Digest}

namespace Run

/-- How a computation ends for an observer. -/
def outcome {α : Type} (x : Run α) (o : Observer) : Except Fault α := (x.run.run o).1

/-- Whoever watches, the computation ends in the same way. -/
def Yields {α : Type} (x : Run α) (r : Except Fault α) : Prop := ∀ o, x.outcome o = r

theorem yields_pure {α : Type} (a : α) : (pure a : Run α).Yields (.ok a) := fun _ => rfl

theorem yields_ofExcept {α : Type} (r : Except Fault α) : (ofExcept r).Yields r := fun _ => rfl

theorem Yields.bind
    {α β : Type} {x : Run α} {r : Except Fault α} {f : α → Run β} {g : α → Except Fault β}
    (hx : x.Yields r) (hf : ∀ a, r = .ok a → (f a).Yields (g a)) :
    (x >>= f).Yields (r >>= g) := by
  intro o
  have hxo : (x.run.run o).1 = r := hx o
  cases r with
  | error fault =>
      have hrun : x.run.run o = (.error fault, (x.run.run o).2) := Prod.ext hxo rfl
      change ((ExceptT.bindCont f (x.run.run o).1).run (x.run.run o).2).1 = _
      rw [hrun]
      rfl
  | ok a =>
      have hrun : x.run.run o = (.ok a, (x.run.run o).2) := Prod.ext hxo rfl
      change ((ExceptT.bindCont f (x.run.run o).1).run (x.run.run o).2).1 = _
      rw [hrun]
      exact hf a rfl _

/-- What is noted on the way does not matter. -/
theorem Yields.note_bind
    {β : Type} {y : Run β} {r : Except Fault β} (m : Milestone) (hy : y.Yields r) :
    (note m >>= fun _ => y).Yields r :=
  fun o => hy (o.note m)

end Run

/-! ## The quiet evaluation -/

namespace Quiet

/-- Joins the instances of `atoms` to what has been joined before, if anything. -/
def joinBody (db : Database digest) (rule : Rule) :
    List Atom → Option (Relation digest) → Except Fault (Option (Relation digest))
  | [], joined => .ok joined
  | atom :: atoms, joined => do
    let here ← (db.query atom).mapError (.inRule rule)
    match joined with
    | none => joinBody db rule atoms (some here)
    | some left => joinBody db rule atoms (some (left.join here))

/-- Applies a rule to a database. -/
def derive (db : Database digest) (rule : Rule) : Except Fault (Rule.Application digest) := do
  match ← joinBody db rule rule.body none with
  | none => return ⟨db, 0, 0⟩
  | some joined =>
    let projected ← (joined.projectAtom rule.head).mapError (.inRule rule)
    let (outcome, db) := db.merge rule.head.name projected
    return ⟨db, projected.size, ← outcome.mapError (.inRule rule)⟩

/-- Applies rules in turn and counts the tuples they add to `added`. -/
def pass : List Rule → Database digest → (added : Nat) → Except Fault (Database digest × Nat)
  | [], db, added => .ok (db, added)
  | rule :: rules, db, added => do
    let a ← derive db rule
    pass rules a.database (added + a.added)

/-- Repeats passes until one adds nothing, with the counts so far. -/
def saturate (options : Options) (group : Group) :
    (room : Nat) → GroupStats → Database digest → Except Fault (GroupStats × Database digest)
  | room, stats, db =>
    if options.exhausted stats.passes then .error (.passLimit group.indices stats.passes)
    else do
      let (db, added) ← pass group.rules db 0
      let stats := { stats with passes := stats.passes + 1, added := stats.added + added }
      if added = 0 ∨ !group.recursive then return (stats, db)
      else
        match room with
        | 0 => return (stats, db)
        | room + 1 => saturate options group room stats db

/-- Evaluates groups in turn and collects their counts. -/
def evaluateGroups (options : Options) :
    List Group → Database digest → Except Fault (List GroupStats × Database digest)
  | [], db => .ok ([], db)
  | group :: groups, db => do
    let (stats, db) ← saturate options group db.capacity (.initial group) db
    let (more, db) ← evaluateGroups options groups db
    return (stats :: more, db)

/-- Answers queries in turn. -/
def answerQueries (db : Database digest) : List Atom → Except Fault (List (Answer digest))
  | [] => .ok []
  | query :: queries => do
    let relation ← (db.query query).mapError (.inQuery query)
    return ⟨query, relation⟩ :: (← answerQueries db queries)

/-- Evaluates a program. -/
def evaluate (options : Options) (p : Program) : Except Fault (Result digest) := do
  let db ← Database.load p
  if options.validateRules then db.validate p.rules
  let plan := Plan.ofRules p.rules
  let (groups, db) ← evaluateGroups options plan.groups db
  let answers ← answerQueries db p.queries
  return ⟨answers, groups, plan, db⟩

end Quiet

namespace Quiet

theorem ok_bind {α β : Type} (a : α) (f : α → Except Fault β) : (Except.ok a >>= f) = f a :=
  rfl

/-- The four parts of an evaluation. -/
theorem evaluate_eq (options : Options) (p : Program) :
    (evaluate options p : Except Fault (Result digest)) =
      Database.load p >>= fun db =>
        (if options.validateRules then db.validate p.rules else .ok ()) >>= fun _ =>
          evaluateGroups options (Plan.ofRules p.rules).groups db >>= fun r =>
            answerQueries r.2 p.queries >>= fun answers =>
              .ok ⟨answers, r.1, Plan.ofRules p.rules, r.2⟩ := by
  rw [evaluate]
  cases options.validateRules with
  | false => rfl
  | true => rfl

/-- What has happened when a program has been evaluated. -/
theorem exists_of_evaluate
    {options : Options} {p : Program} {result : Result digest}
    (h : evaluate options p = .ok result) :
    ∃ db counts last answers, Database.load p = .ok db ∧
      evaluateGroups options (Plan.ofRules p.rules).groups db = .ok (counts, last) ∧
      answerQueries last p.queries = .ok answers ∧
      result = ⟨answers, counts, Plan.ofRules p.rules, last⟩ := by
  rw [evaluate_eq] at h
  obtain ⟨db, hload, h⟩ := bind_eq_ok_iff.mp h
  obtain ⟨_, -, h⟩ := bind_eq_ok_iff.mp h
  obtain ⟨⟨counts, last⟩, hgroups, h⟩ := bind_eq_ok_iff.mp h
  obtain ⟨answers, hanswers, h⟩ := bind_eq_ok_iff.mp h
  exact ⟨db, counts, last, answers, hload, hgroups, hanswers, (Except.ok.inj h).symm⟩

end Quiet

/-! ## Watched and quiet runs agree -/

theorem Rule.joinBody_yields
    (options : Options) (db : Database digest) (rule : Rule)
    (atoms : List Atom) (joined : Option (Relation digest)) :
    (rule.joinBody options db atoms joined).Yields (Quiet.joinBody db rule atoms joined) := by
  induction atoms generalizing joined with
  | nil => exact Run.yields_pure joined
  | cons atom atoms ih =>
      refine Run.Yields.bind (Run.yields_ofExcept _) ?_
      intro here _
      cases joined with
      | none => exact ih _
      | some left =>
          simp only
          split
          · exact Run.Yields.note_bind _ (ih _)
          · exact ih _

theorem Rule.derive_yields (options : Options) (db : Database digest) (rule : Rule) :
    (rule.derive options db).Yields (Quiet.derive db rule) := by
  refine Run.Yields.bind (rule.joinBody_yields options db _ _) ?_
  intro joined _
  cases joined with
  | none => exact Run.yields_pure _
  | some joined =>
      refine Run.Yields.bind (Run.yields_ofExcept _) ?_
      intro projected _
      exact Run.Yields.bind (Run.yields_ofExcept _) fun _ _ => Run.yields_pure _

/-- What follows a computation starts from its value and from what has been seen. -/
theorem fst_run_bind
    {α β : Type} {x : StateM Observer α} {f : α → StateM Observer β} {o : Observer} {a : α}
    (hx : (x.run o).1 = a) : ((x >>= f).run o).1 = ((f a).run (x.run o).2).1 := by
  subst hx
  rfl

theorem Rule.apply_yields (options : Options) (db : Database digest) (rule : Rule) :
    (rule.apply options db).Yields (Quiet.derive db rule) := by
  intro o
  refine (fst_run_bind (rule.derive_yields options db o)).trans ?_
  cases Quiet.derive db rule <;> rfl

namespace Group

theorem passFrom_yields
    (options : Options) (rules : List Rule) (db : Database digest) (added : Nat) :
    (passFrom options rules db added).Yields (Quiet.pass rules db added) := by
  induction rules generalizing db added with
  | nil => exact Run.yields_pure _
  | cons rule rules ih => exact Run.Yields.bind (rule.apply_yields options db) fun _ _ => ih _ _

theorem pass_yields (options : Options) (group : Group) (db : Database digest) :
    (group.pass options db).Yields (Quiet.pass group.rules db 0) :=
  passFrom_yields options group.rules db 0

/-- The end of a group, with its counts if it succeeded. -/
def ending (e : GroupStats × Except Fault (Database digest)) :
    Except Fault (GroupStats × Database digest) :=
  e.2.map (e.1, ·)

theorem ending_saturate
    (options : Options) (group : Group) (room : Nat) (stats : GroupStats) (db : Database digest)
    (o : Observer) :
    ending ((group.saturate options room stats db).run o).1 =
      Quiet.saturate options group room stats db := by
  induction room using Nat.strongRecOn generalizing stats db o with
  | _ room ih =>
      rw [saturate, Quiet.saturate]
      split
      · rfl
      · refine (congrArg ending (fst_run_bind (group.pass_yields options db o))).trans ?_
        rcases Quiet.pass group.rules db 0 with fault | ⟨db', added⟩
        · rfl
        · rw [Quiet.ok_bind]
          by_cases hlast : added = 0 ∨ (!group.recursive) = true
          · simp only [hlast, if_true]
            rfl
          · simp only [hlast, if_false]
            cases room with
            | zero => rfl
            | succ fewer => exact ih fewer (Nat.lt_succ_self fewer) _ _ _

theorem evaluate_yields (options : Options) (group : Group) (db : Database digest) :
    (group.evaluate options db).Yields
      (Quiet.saturate options group db.capacity (.initial group) db) :=
  fun o => group.ending_saturate options db.capacity (.initial group) db
    (o.note (.groupBegin group))

end Group

namespace Program

theorem evaluateGroups_yields
    (options : Options) (groups : List Group) (db : Database digest) :
    (evaluateGroups options groups db).Yields (Quiet.evaluateGroups options groups db) := by
  induction groups generalizing db with
  | nil => exact Run.yields_pure _
  | cons group groups ih =>
      refine Run.Yields.bind (group.evaluate_yields options db) ?_
      rintro ⟨stats, db⟩ _
      exact Run.Yields.bind (ih db) fun _ _ => Run.yields_pure _

theorem answerQueries_yields (db : Database digest) (queries : List Atom) :
    (answerQueries db queries).Yields (Quiet.answerQueries db queries) := by
  induction queries with
  | nil => exact Run.yields_pure _
  | cons query queries ih =>
      refine Run.Yields.bind (Run.yields_ofExcept _) ?_
      intro relation _
      exact Run.Yields.note_bind _ (Run.Yields.bind ih fun _ _ => Run.yields_pure _)

theorem evaluateSteps_yields (options : Options) (p : Program) :
    (p.evaluateSteps options : Run (Result digest)).Yields (Quiet.evaluate options p) := by
  refine Run.Yields.bind (Run.yields_ofExcept _) ?_
  intro db _
  refine Run.Yields.note_bind _ ?_
  have hrest : ∀ _ : PUnit, Run.Yields (do
      Run.note (.rulesGrouped p.rules.length (Plan.ofRules p.rules))
      let (groups, db) ← evaluateGroups options (Plan.ofRules p.rules).groups db
      let answers ← answerQueries db p.queries
      return ⟨answers, groups, Plan.ofRules p.rules, db⟩) (do
      let (groups, db) ← Quiet.evaluateGroups options (Plan.ofRules p.rules).groups db
      let answers ← Quiet.answerQueries db p.queries
      return (⟨answers, groups, Plan.ofRules p.rules, db⟩ : Result digest)) := by
    intro _
    refine Run.Yields.note_bind _ ?_
    refine Run.Yields.bind (evaluateGroups_yields options _ db) ?_
    rintro ⟨groups, db⟩ _
    exact Run.Yields.bind (answerQueries_yields db p.queries) fun _ _ => Run.yields_pure _
  by_cases hvalidate : options.validateRules = true
  · simp only [hvalidate, if_true]
    exact Run.Yields.bind (Run.yields_ofExcept _) fun u _ => hrest u
  · simp only [hvalidate]
    exact hrest ⟨⟩

/-- A watched run ends as the quiet one, whoever watches. -/
theorem outcome_evaluateObserved (options : Options) (p : Program) (o : Observer) :
    (p.evaluateObserved options : Run (Result digest)).outcome o = Quiet.evaluate options p :=
  p.evaluateSteps_yields options o.start

theorem evaluate_eq_quiet (options : Options) (p : Program) :
    (p.evaluate options : Except Fault (Result digest)) = Quiet.evaluate options p :=
  p.outcome_evaluateObserved options (.new false)

end Program

end LeastModel
