import LeastModel.Plan.Search

/-!
# Evaluation plans

Rules that depend on one another in a cycle form a group and are evaluated
together. The groups are listed so that each comes after the groups it reads
from.
-/

namespace LeastModel

/-- A strongly connected component of the dependency graph: the places of its
rules, ascending, the rules themselves, and whether they feed one another. -/
structure Group where
  indices : List Nat
  rules : List Rule
  recursive : Bool
  deriving DecidableEq

/-- The group by the numbers of its rules. -/
def Group.render (g : Group) : Bytes := Graph.renderNodes g.indices

/-- The order in which the rules of a program are evaluated. -/
structure Plan where
  graph : Graph
  groups : List Group
  deriving DecidableEq

namespace Plan

/-- The group of the rules at the places `indices`. -/
def groupOf (rules : List Rule) (graph : Graph) (indices : List Nat) : Group where
  indices := indices
  rules := indices.filterMap (rules[·]?)
  recursive := indices.length > 1 || indices.any (fun i => graph.hasEdge i i)

/-- The plan for a list of rules. -/
def ofRules (rules : List Rule) : Plan :=
  let graph := Graph.ofRules rules
  ⟨graph, graph.components.map (groupOf rules graph)⟩

/-- The number of groups that may need more than one pass. -/
def recursiveGroups (p : Plan) : Nat := p.groups.countP (·.recursive)

/-- The dependency graph, then one line per group. -/
def render (p : Plan) : Bytes :=
  "Dependency Graph\n" ++ p.graph.render ++ "\nRule Groups\n" ++
    p.groups.flatMap fun g =>
      ("SCC: " ++ g.render ++ (if g.recursive then " (recursive)" else "") ++ "\n" : Bytes)

end Plan

end LeastModel
