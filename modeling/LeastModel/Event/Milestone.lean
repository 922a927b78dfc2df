import LeastModel.Event.Basic
import LeastModel.Fault

/-!
# The milestones of an evaluation

The steps that an evaluation tells of, each with exactly the facts it is about,
and the event that it is recorded as.
-/

namespace LeastModel

/-- How an evaluation ended. -/
inductive Ending where
  | failed (fault : Fault)
  | succeeded (passes : Nat) (tuples : Nat) (relations : List RelationInfo)
  deriving DecidableEq

/-- The steps that are recorded. -/
inductive Milestone where
  | programLoaded (relations facts tuples : Nat)
  | rulesGrouped (rules : Nat) (plan : Plan)
  | groupBegin (group : Group)
  | groupPass (group : Group) (pass added : Nat)
  | groupComplete (group : Group) (passes added : Nat)
  | ruleEvaluated (rule : Rule) (derived added : Nat)
  | joined (left : RelationInfo) (right : RelationInfo) (result : RelationInfo)
  | queryAnswered (query : Atom) (tuples : Nat)
  | complete (ending : Ending)
  deriving DecidableEq

namespace Milestone

/-- The name under which a milestone is recorded. -/
def name : Milestone → Bytes
  | programLoaded .. => "program/loaded"
  | rulesGrouped .. => "rules/grouped"
  | groupBegin .. => "group/begin"
  | groupPass .. => "group/pass"
  | groupComplete .. => "group/complete"
  | ruleEvaluated .. => "rule/evaluated"
  | joined .. => "join/hash"
  | queryAnswered .. => "query/answered"
  | complete .. => "evaluation/complete"

/-- A number as a value of an event. -/
def count (n : Nat) : Datum := .int n

/-- The data with which a milestone is recorded. -/
def data : Milestone → List (Bytes × Datum)
  | programLoaded relations facts tuples =>
    [("relations.count", count relations), ("facts.count", count facts),
     ("tuples.count", count tuples)]
  | rulesGrouped rules plan =>
    [("rules.count", count rules), ("group.count", count plan.groups.length),
     ("recursive.count", count plan.recursiveGroups), ("plan", .text plan.render)]
  | groupBegin group => [("group", .text group.render), ("recursive", .flag group.recursive)]
  | groupPass group pass added =>
    [("group", .text group.render), ("pass", count pass), ("tuples.added", count added)]
  | groupComplete group passes added =>
    [("group", .text group.render), ("passes", count passes), ("tuples.added", count added)]
  | ruleEvaluated rule derived added =>
    [("rule", .text rule.render), ("tuples.derived", count derived),
     ("tuples.added", count added)]
  | joined left right result =>
    [("left.attrs", .texts left.attrs), ("left.size", .int left.tuples),
     ("right.attrs", .texts right.attrs), ("right.size", .int right.tuples),
     ("result.attrs", .texts result.attrs), ("result.size", .int result.tuples)]
  | queryAnswered query tuples => [("query", .text query.render), ("tuples.count", count tuples)]
  | complete (.failed fault) => [("success", .flag false), ("error", .failure fault.message)]
  | complete (.succeeded passes tuples relations) =>
    [("success", .flag true), ("passes.total", count passes),
     ("relations.count", count relations.length), ("tuples.count", count tuples),
     ("relations", .relations relations)]

/-- The event that a milestone is recorded as. -/
def toEvent (m : Milestone) : Event := ⟨m.name, m.data, 0⟩

end Milestone

/-- Watches an evaluation: records its milestones and counts the passes of the
current run. -/
structure Observer where
  recorder : Recorder
  passes : Nat

namespace Observer

/-- An observer that has seen nothing. One that does not record only counts. -/
def new (recording : Bool) : Observer := ⟨.new recording, 0⟩

/-- Starts the count of passes for a new run. -/
def start (o : Observer) : Observer := { o with passes := 0 }

/-- Takes note of a milestone. -/
def note (o : Observer) (m : Milestone) : Observer :=
  { o with recorder := o.recorder.record m.toEvent }

/-- Takes note of a completed pass. -/
def notePass (o : Observer) (group : Group) (pass added : Nat) : Observer :=
  { (o.note (.groupPass group pass added)) with passes := o.passes + 1 }

end Observer

end LeastModel
