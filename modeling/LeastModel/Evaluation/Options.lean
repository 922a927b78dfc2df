import LeastModel.Database.Basic
import LeastModel.Event.Milestone

/-!
# Options and results of an evaluation
-/

namespace LeastModel

/-- How an evaluation is carried out. -/
structure Options where
  /-- The most passes a group may make; no bound unless positive. -/
  maxPasses : Int := 0
  /-- Whether the rules are checked before anything is derived. -/
  validateRules : Bool := true
  /-- Whether every join is recorded. -/
  traceJoins : Bool := false
  deriving DecidableEq

/-- Whether a group that has made `passes` passes may make no further one. -/
def Options.exhausted (o : Options) (passes : Nat) : Bool :=
  0 < o.maxPasses && o.maxPasses ≤ passes

/-- How a group reached its fixpoint. -/
structure GroupStats where
  indices : List Nat
  recursive : Bool
  passes : Nat
  added : Nat
  deriving DecidableEq

/-- The counts of a group before its first pass. -/
def GroupStats.initial (group : Group) : GroupStats := ⟨group.indices, group.recursive, 0, 0⟩

/-- A query with the relation that answers it. -/
structure Answer (digest : Digest) where
  query : Atom
  relation : Relation digest

/-- Everything that an evaluation produces. -/
structure Result (digest : Digest) where
  answers : List (Answer digest)
  groups : List GroupStats
  plan : Plan
  database : Database digest

end LeastModel
