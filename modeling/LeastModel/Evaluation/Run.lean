import LeastModel.Evaluation.Fixpoint
import LeastModel.Evaluation.Validation

/-!
# Evaluating a program

Schemes and facts are loaded, the rules are checked and grouped, every group is
evaluated to its fixpoint in the order of the plan, and the queries are
answered. The first failure ends the run.
-/

namespace LeastModel

variable {digest : Digest}

namespace Program

/-- Evaluates groups in turn and collects their counts. -/
def evaluateGroups (options : Options) :
    List Group → Database digest → Run (List GroupStats × Database digest)
  | [], db => pure ([], db)
  | group :: groups, db => do
    let (stats, db) ← group.evaluate options db
    let (more, db) ← evaluateGroups options groups db
    return (stats :: more, db)

/-- Answers queries in turn. -/
def answerQueries (db : Database digest) : List Atom → Run (List (Answer digest))
  | [] => pure []
  | query :: queries => do
    let relation ← Run.ofExcept ((db.query query).mapError (.inQuery query))
    Run.note (.queryAnswered query relation.size)
    return ⟨query, relation⟩ :: (← answerQueries db queries)

/-- The run without the note of its end. -/
def evaluateSteps (options : Options) (p : Program) : Run (Result digest) := do
  let db ← Run.ofExcept (Database.load p)
  Run.note (.programLoaded p.schemes.length p.facts.length db.tupleCount)
  if options.validateRules then Run.ofExcept (db.validate p.rules)
  let plan := Plan.ofRules p.rules
  Run.note (.rulesGrouped p.rules.length plan)
  let (groups, db) ← evaluateGroups options plan.groups db
  let answers ← answerQueries db p.queries
  return ⟨answers, groups, plan, db⟩

/-- How a run ended, for an observer that counted its passes. -/
def endingOf (o : Observer) : Except Fault (Result digest) → Ending
  | .error fault => .failed fault
  | .ok result =>
    .succeeded o.passes result.database.tupleCount (result.database.relations.map (·.info))

/-- Evaluates a program under the eyes of an observer. -/
def evaluateObserved (options : Options) (p : Program) : Run (Result digest) := ExceptT.mk do
  modify (·.start)
  let outcome ← (p.evaluateSteps options).run
  modify fun o => o.note (.complete (endingOf o outcome))
  return outcome

/-- Evaluates a program. -/
def evaluate (options : Options) (p : Program) : Except Fault (Result digest) :=
  ((p.evaluateObserved options).run.run (.new false)).1

end Program

end LeastModel
