import LeastModel.Answer.Report

/-!
# Settings

Everything that a configuration file can decide, and that the command line can
decide otherwise. A source of settings gives a list of single decisions, which
are taken over in order: the last decision about a matter holds.
-/

namespace LeastModel

/-- A decision about one matter. -/
inductive Setting where
  /-- The name of the style in which answers are shown. -/
  | format (name : Bytes)
  /-- Whether the steps of an evaluation are shown. -/
  | verbose (b : Bool)
  /-- The directory in which answers are stored; none if empty. -/
  | store (directory : Bytes)
  /-- Whether the plan is shown. -/
  | graph (b : Bool)
  /-- The most passes a group may make. -/
  | maxPasses (n : Int)
  /-- Whether rules are checked before the evaluation. -/
  | validateRules (b : Bool)
  /-- Whether joins are among the steps shown. -/
  | traceJoins (b : Bool)
  deriving DecidableEq

/-- A decision about every matter. -/
structure Settings where
  format : Bytes := AnswerStyle.text.name
  verbose : Bool := false
  store : Bytes := []
  graph : Bool := false
  options : Options := {}
  deriving DecidableEq

namespace Settings

/-- Takes over a decision. -/
def take (s : Settings) : Setting → Settings
  | .format name => { s with format := name }
  | .verbose b => { s with verbose := b }
  | .store directory => { s with store := directory }
  | .graph b => { s with graph := b }
  | .maxPasses n => { s with options := { s.options with maxPasses := n } }
  | .validateRules b => { s with options := { s.options with validateRules := b } }
  | .traceJoins b => { s with options := { s.options with traceJoins := b } }

/-- Takes over decisions in order. -/
def takeAll (s : Settings) (decisions : List Setting) : Settings := decisions.foldl take s

end Settings

/-- How a value of a certain form becomes a decision, or whatever else is wanted. -/
inductive Slot (α : Type) where
  | text (of : Bytes → α)
  | truth (of : Bool → α)
  | whole (of : Int → α)

end LeastModel
