import LeastModel.Program.Basic

/-!
# The dependency graph of a list of rules

One node per rule, numbered by the place of the rule. An edge leads from a rule
to every rule that derives a relation its body reads.
-/

namespace LeastModel

/-- A directed graph on the nodes `0, 1, …`: the successors of each node. -/
structure Graph where
  successors : List (List Nat)
  deriving DecidableEq

namespace Graph

/-- The number of nodes. -/
def size (g : Graph) : Nat := g.successors.length

/-- The successors of a node; a number that is no node has none. -/
def edges (g : Graph) (i : Nat) : List Nat := g.successors.getD i []

/-- Whether an edge leads from `i` to `j`. -/
def hasEdge (g : Graph) (i j : Nat) : Bool := (g.edges i).contains j

/-- The dependency graph of `rules`. -/
def ofRules (rules : List Rule) : Graph :=
  ⟨rules.map fun reader =>
    rules.zipIdx.filterMap fun (writer, j) =>
      if reader.body.any (·.name == writer.head.name) then some j else none⟩

/-- The graph with every edge turned around. -/
def reverse (g : Graph) : Graph :=
  ⟨(List.range g.size).map fun j =>
    g.successors.zipIdx.filterMap fun (targets, i) =>
      if targets.contains j then some i else none⟩

/-- Rules by number: `R0,R3`. -/
def renderNodes (nodes : List Nat) : Bytes :=
  Bytes.join "," (nodes.map fun i => ("R" ++ Bytes.ofNat i : Bytes))

/-- One line per rule with the rules it depends on. -/
def render (g : Graph) : Bytes :=
  g.successors.zipIdx.flatMap fun (targets, i) =>
    ("R" ++ Bytes.ofNat i ++ ":" ++ renderNodes targets ++ "\n" : Bytes)

end Graph

end LeastModel
