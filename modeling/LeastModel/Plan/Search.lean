import LeastModel.Number.Total
import LeastModel.Plan.Graph

/-!
# Depth-first search

The search keeps the path from the root to the current node as a stack of
frames, each with the successors that have not been tried yet, so that a long
chain of rules needs no deep recursion. Nodes are listed in the order in which
they are finished.
-/

namespace LeastModel.Graph

/-- A node on the path of the search, and the successors still to be tried. -/
structure Frame where
  node : Nat
  pending : List Nat

/-- What the search may still spend on nodes that are not visited. -/
def reserve (g : Graph) (visited nodes : List Nat) : Nat :=
  Number.total (nodes.map fun u => if u ∈ visited then 0 else (g.edges u).length + 2)

theorem reserve_cons_le (g : Graph) (w : Nat) (visited nodes : List Nat) :
    g.reserve (w :: visited) nodes ≤ g.reserve visited nodes := by
  induction nodes with
  | nil => simp [reserve]
  | cons u us ih =>
    simp only [reserve, List.map_cons, Number.total_cons, List.mem_cons] at ih ⊢
    split <;> split <;> simp_all
    omega

theorem reserve_visit
    (g : Graph) {w : Nat} {visited nodes : List Nat}
    (hw : w ∈ nodes) (hnew : w ∉ visited) :
    g.reserve (w :: visited) nodes + (g.edges w).length + 2 ≤ g.reserve visited nodes := by
  induction nodes with
  | nil => cases hw
  | cons u us ih =>
    by_cases hu : u = w
    · subst hu
      have := g.reserve_cons_le u visited us
      simp only [reserve, List.map_cons, Number.total_cons, List.mem_cons] at this ⊢
      simp only [true_or, if_true, hnew, if_false]
      omega
    · have := ih (by simpa [Ne.symm hu] using hw)
      simp only [reserve, List.map_cons, Number.total_cons, List.mem_cons, hu, false_or] at this ⊢
      omega

/-- Runs the search until the stack is empty: the nodes visited, and the nodes
finished in the order in which they were. -/
def search
    (g : Graph) (stack : List Frame) (visited finished : List Nat) :
    List Nat × List Nat :=
  match stack with
  | [] => (visited, finished)
  | ⟨v, []⟩ :: stack => g.search stack visited (finished ++ [v])
  | ⟨v, w :: pending⟩ :: stack =>
    if w < g.size ∧ w ∉ visited then
      g.search (⟨w, g.edges w⟩ :: ⟨v, pending⟩ :: stack) (w :: visited) finished
    else g.search (⟨v, pending⟩ :: stack) visited finished
termination_by
  g.reserve visited (List.range g.size) + Number.total (stack.map fun f => f.pending.length + 1)
decreasing_by
  · simp
  · rename_i h
    have := g.reserve_visit (List.mem_range.mpr h.1) h.2
    simp only [List.map_cons, Number.total_cons, List.length_cons]
    omega
  · simp

/-- Searches everything that is reachable from `root` without passing through
`visited`. -/
def searchFrom (g : Graph) (root : Nat) (visited : List Nat) : List Nat × List Nat :=
  g.search [⟨root, g.edges root⟩] (root :: visited) []

/-- Searches from each of `roots` that no earlier search has visited, and lists
what each search finished. -/
def forest (g : Graph) : (roots visited : List Nat) → List (List Nat)
  | [], _ => []
  | root :: roots, visited =>
    if root ∈ visited then g.forest roots visited
    else
      let (visited, finished) := g.searchFrom root visited
      finished :: g.forest roots visited

/-- All nodes in the order in which searches from the nodes in ascending order
finish them. -/
def finishOrder (g : Graph) : List Nat :=
  (g.forest (List.range g.size) []).flatten

/-- The strongly connected components, each ascending. A component comes after
the components that its nodes have edges to. -/
def components (g : Graph) : List (List Nat) :=
  (g.forest g.reverse.finishOrder.reverse []).map fun tree =>
    (List.range g.size).filter (tree.contains ·)

end LeastModel.Graph
