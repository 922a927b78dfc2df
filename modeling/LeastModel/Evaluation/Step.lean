import LeastModel.Evaluation.Options
import LeastModel.Relation.Join

/-!
# Applying one rule

The instances of the body atoms are joined from left to right, the head picks
its columns from the join, and the outcome is merged into the head relation.
-/

namespace LeastModel

variable {digest : Digest}

/-- A computation that is watched and may fail. What was noted before a failure
stays noted. -/
abbrev Run := ExceptT Fault (StateM Observer)

namespace Run

/-- Takes note of a milestone. -/
def note (m : Milestone) : Run Unit := modify (·.note m)

/-- An outcome that does not depend on the observer. -/
def ofExcept {α : Type} (x : Except Fault α) : Run α := ExceptT.mk (pure x)

end Run

namespace Relation

/-- What is told about a relation. -/
def info (r : Relation digest) : RelationInfo := ⟨r.name, r.schema, r.size⟩

end Relation

namespace Rule

/-- A failure in a rule as a failure of the run. -/
def attempt {α : Type} (rule : Rule) (x : Except Fault α) : Run α :=
  Run.ofExcept (x.mapError (.inRule rule))

/-- Joins the instances of `atoms` to what has been joined before, if anything. -/
def joinBody (options : Options) (db : Database digest) (rule : Rule) :
    List Atom → Option (Relation digest) → Run (Option (Relation digest))
  | [], joined => pure joined
  | atom :: atoms, joined => do
    let here ← rule.attempt (db.query atom)
    match joined with
    | none => joinBody options db rule atoms (some here)
    | some left =>
      let result := left.join here
      if options.traceJoins then Run.note (.joined left.info here.info result.info)
      joinBody options db rule atoms (some result)

/-- What one application of a rule gives: the database after it, the number of
tuples that the body yielded, and how many of them were new. -/
structure Application (digest : Digest) where
  database : Database digest
  derived : Nat
  added : Nat

/-- Applies a rule to a database. A rule without a body does nothing. -/
def derive (options : Options) (db : Database digest) (rule : Rule) :
    Run (Application digest) := do
  match ← rule.joinBody options db rule.body none with
  | none => return ⟨db, 0, 0⟩
  | some joined =>
    let projected ← rule.attempt (joined.projectAtom rule.head)
    let (outcome, db) := db.merge rule.head.name projected
    return ⟨db, projected.size, ← rule.attempt outcome⟩

/-- Applies a rule and takes note of it, whether it succeeds or fails. -/
def apply (options : Options) (db : Database digest) (rule : Rule) :
    Run (Application digest) := ExceptT.mk do
  let outcome ← (rule.derive options db).run
  match outcome with
  | .ok a => modify (·.note (.ruleEvaluated rule a.derived a.added))
  | .error _ => modify (·.note (.ruleEvaluated rule 0 0))
  return outcome

end Rule

end LeastModel
