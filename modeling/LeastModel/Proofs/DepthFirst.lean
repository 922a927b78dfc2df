import LeastModel.Proofs.Components

/-!
# The search on a stack as a recursion

`tryAll` is depth-first search as it is usually written: the nodes of a list are
tried in order, and a node that is new is marked, has its successors tried, and
is finished. `search_frame` says that one frame of the stack, with whatever lies
below it, does what this recursion does with the successors that the frame has
still to try. So the search on the stack finishes the same nodes in the same
order (`search_root`).

What is finished, and when, is then read off the recursion. An edge that leads
out of a cycle, or joins no cycle, leads to a node that is finished earlier
(`Explores.before_of_adj`), and this holds across all the searches by which the
nodes are put in order.
-/

namespace LeastModel.Graph

/-! ## The recursion -/

theorem reserve_le_of_subset
    (g : Graph) {visited visited' : List Nat} (h : visited ⊆ visited') (nodes : List Nat) :
    g.reserve visited' nodes ≤ g.reserve visited nodes := by
  induction nodes with
  | nil => exact Nat.le_refl _
  | cons u nodes ih =>
      simp only [reserve, List.map_cons, Number.total_cons] at ih ⊢
      have hu : u ∈ visited → u ∈ visited' := fun hu => h hu
      split <;> split <;> simp_all
      omega

/-- What a search that started behind the nodes `visited` has seen, which is
never less than before, and what it has finished, in order. -/
structure Visit (visited : List Nat) where
  seen : List Nat
  finished : List Nat
  grown : visited ⊆ seen

/-- Tries nodes one after another: one that is new is marked, then its
successors are tried, then it is finished. -/
def tryAll (g : Graph) : (pending visited : List Nat) → Visit visited
  | [], visited => ⟨visited, [], List.Subset.refl visited⟩
  | w :: pending, visited =>
    if _hnew : w < g.size ∧ w ∉ visited then
      let below := g.tryAll (g.edges w) (w :: visited)
      let rest := g.tryAll pending below.seen
      { seen := rest.seen
        finished := below.finished ++ w :: rest.finished
        grown := fun _ hx => rest.grown (below.grown (List.mem_cons_of_mem w hx)) }
    else g.tryAll pending visited
termination_by pending visited => (g.reserve visited (List.range g.size), pending.length)
decreasing_by
  · have hvisit := g.reserve_visit (List.mem_range.mpr _hnew.1) _hnew.2
    exact Prod.Lex.left _ _ (by omega)
  · have hvisit := g.reserve_visit (List.mem_range.mpr _hnew.1) _hnew.2
    exact Prod.Lex.left _ _
      (Nat.lt_of_le_of_lt (g.reserve_le_of_subset (Visit.grown _) _) (by omega))
  · exact Prod.Lex.right _ (by simp)

/-- Marks `root`, tries its successors and finishes it. -/
def visit (g : Graph) (root : Nat) (visited : List Nat) : Visit (root :: visited) :=
  let below := g.tryAll (g.edges root) (root :: visited)
  ⟨below.seen, below.finished ++ [root], below.grown⟩

theorem tryAll_pass
    {g : Graph} {w : Nat} {visited : List Nat} (h : ¬(w < g.size ∧ w ∉ visited))
    (pending : List Nat) : g.tryAll (w :: pending) visited = g.tryAll pending visited := by
  rw [tryAll, dif_neg h]

/-- A node that is new is visited before the nodes behind it are tried. -/
theorem tryAll_enter
    {g : Graph} {w : Nat} {visited : List Nat} (h : w < g.size ∧ w ∉ visited)
    (pending : List Nat) :
    (g.tryAll (w :: pending) visited).seen = (g.tryAll pending (g.visit w visited).seen).seen ∧
      (g.tryAll (w :: pending) visited).finished =
        (g.visit w visited).finished ++ (g.tryAll pending (g.visit w visited).seen).finished := by
  rw [tryAll, dif_pos h]
  simp [visit]

/-- The recursion is described by `Explores`. -/
theorem explores_tryAll (g : Graph) (pending visited : List Nat) :
    g.Explores pending visited (g.tryAll pending visited).seen
      (g.tryAll pending visited).finished := by
  fun_induction tryAll g pending visited with
  | case1 visited => exact .done
  | case2 w pending visited hnew below rest ihbelow ihrest =>
      exact .enter hnew.1 hnew.2 ihbelow ihrest
  | case3 w pending visited hseen ih => exact .pass hseen ih

theorem explores_visit
    {g : Graph} {root : Nat} {visited : List Nat} (h : root < g.size) (hnew : root ∉ visited) :
    g.Explores [root] visited (g.visit root visited).seen (g.visit root visited).finished :=
  .enter h hnew (g.explores_tryAll _ _) .done

/-! ## The stack -/

/-- A frame of the stack does what the recursion does with its pending nodes,
and then finishes its own. -/
theorem search_frame
    (g : Graph) (v : Nat) (pending : List Nat) (stack : List Frame)
    (visited finished : List Nat) :
    g.search (⟨v, pending⟩ :: stack) visited finished =
      g.search stack (g.tryAll pending visited).seen
        (finished ++ (g.tryAll pending visited).finished ++ [v]) := by
  fun_induction tryAll g pending visited generalizing v stack finished with
  | case1 visited => rw [search, List.append_nil]
  | case2 w pending visited hnew below rest ihbelow ihrest =>
      -- First the new frame is worked off, then what is left of the frame below it.
      rw [search, if_pos hnew, ihbelow, ihrest]
      simp [below, rest]
  | case3 w pending visited hseen ih => rw [search, if_neg hseen, ih]

/-- The search on the stack appends what the recursion finishes. -/
theorem search_root (g : Graph) (root : Nat) (visited finished : List Nat) :
    g.search [⟨root, g.edges root⟩] (root :: visited) finished =
      ((g.visit root visited).seen, finished ++ (g.visit root visited).finished) := by
  rw [search_frame, search, visit, List.append_assoc]

theorem forest_flatten
    (g : Graph) {roots : List Nat} (hroots : ∀ root ∈ roots, root < g.size)
    (visited : List Nat) :
    (g.forest roots visited).flatten = (g.tryAll roots visited).finished := by
  induction roots generalizing visited with
  | nil => rw [forest, tryAll, List.flatten_nil]
  | cons root roots ih =>
      obtain ⟨hroot, hroots⟩ := List.forall_mem_cons.mp hroots
      by_cases hseen : root ∈ visited
      · rw [forest, if_pos hseen, ih hroots, tryAll_pass (by simp [hseen])]
      · rw [forest, if_neg hseen, (tryAll_enter ⟨hroot, hseen⟩ roots).2, searchFrom, search_root]
        simp [ih hroots]

/-- The order in which the nodes are finished is that of the recursion when it
tries all of them. -/
theorem finishOrder_eq_tryAll (g : Graph) :
    g.finishOrder = (g.tryAll (List.range g.size) []).finished :=
  g.forest_flatten (fun _ hroot => List.mem_range.mp hroot) []

/-! ## Finishing times -/

/-- An edge whose end does not lead back leads to a node that was visited before
or is finished earlier. -/
theorem Explores.before_of_adj
    {g : Graph} {pending visited visited' out : List Nat}
    (h : g.Explores pending visited visited' out)
    {u v : Nat} (hu : u ∈ out) (huv : g.Adj u v) (hback : ¬g.Reaches v u) :
    v ∈ visited ∨ [v, u].Sublist out := by
  induction h with
  | done => cases hu
  | pass _ _ ih => exact ih hu
  | @enter w pending visited visited₁ visited₂ out₁ out₂ hnode hnew below rest ihbelow ihrest =>
      have earlier : v ∈ out₁ → u ∈ w :: out₂ → [v, u].Sublist (out₁ ++ w :: out₂) :=
        fun hv hu => (List.singleton_sublist.mpr hv).append (List.singleton_sublist.mpr hu)
      rcases List.mem_append.mp hu with hu₁ | hu₂
      · rcases ihbelow hu₁ with hv | hsub
        · rcases List.mem_cons.mp hv with rfl | hv
          · -- The node that was entered leads to all that is finished below it.
            obtain ⟨x, hx, hxnode, hpath⟩ := below.reached hu₁
            exact absurd (hpath.reaches.head ⟨hx, hxnode⟩) hback
          · exact Or.inl hv
        · exact Or.inr (hsub.trans (List.sublist_append_left _ _))
      · have hseen : v ∈ visited₁ → v ∈ visited ∨ v = w ∨ v ∈ out₁ := by
          rw [below.mem_visited, List.mem_cons]
          rintro ((hv | hv) | hv)
          · exact Or.inr (Or.inl hv)
          · exact Or.inl hv
          · exact Or.inr (Or.inr hv)
        rcases List.mem_cons.mp hu₂ with rfl | hu₂'
        · rcases hseen (below.pending_visited huv.1 huv.2) with hv | rfl | hv
          · exact Or.inl hv
          · exact absurd Relation.ReflTransGen.refl hback
          · exact Or.inr (earlier hv hu₂)
        · rcases ihrest hu₂' with hv | hsub
          · rcases hseen hv with hv | rfl | hv
            · exact Or.inl hv
            · refine Or.inr (List.Sublist.trans ?_ (List.sublist_append_right _ _))
              exact (List.singleton_sublist.mpr hu₂').cons_cons v
            · exact Or.inr (earlier hv hu₂)
          · exact Or.inr ((hsub.cons w).trans (List.sublist_append_right _ _))

/-! ## The search -/

/-- Searching from `root` behind the nodes `visited` finishes `tree`, in the
order of the recursion, and ends with `visited'`. -/
structure IsTree (g : Graph) (root : Nat) (visited visited' tree : List Nat) : Prop where
  /-- The recursion sees the same nodes and finishes them in the same order. -/
  recursion : visited' = (g.visit root visited).seen ∧ tree = (g.visit root visited).finished
  /-- The nodes on paths from the root that meet no visited node are finished. -/
  mem_iff : ∀ x, x ∈ tree ↔ g.ReachesOutside visited root x
  /-- No node is finished twice. -/
  nodup : tree.Nodup
  /-- The root is finished last. -/
  root_last : tree.getLast? = some root
  /-- Exactly these nodes are newly visited. -/
  visited_iff : ∀ x, x ∈ visited' ↔ x ∈ visited ∨ x ∈ tree
  /-- What had been visited is not finished again. -/
  fresh : ∀ x ∈ tree, x ∉ visited

theorem isTree_visit
    {g : Graph} {root : Nat} {visited : List Nat} (h : root < g.size) (hnew : root ∉ visited) :
    g.IsTree root visited (g.visit root visited).seen (g.visit root visited).finished where
  recursion := ⟨rfl, rfl⟩
  mem_iff := by
    intro x
    rw [(explores_visit h hnew).mem_iff]
    simp [h]
  nodup := (explores_visit h hnew).nodup
  root_last := by simp [visit]
  visited_iff := (explores_visit h hnew).mem_visited
  fresh := fun _ hx => (explores_visit h hnew).notMem_visited hx

/-- The search on the stack is depth-first search: from a node that has not been
visited it appends the tree of the recursion, and the order in which all nodes
are finished puts the end of an edge first unless it leads back. -/
theorem search_isDepthFirst {g : Graph} (hrange : g.InRange) :
    (∀ root < g.size, ∀ visited, root ∉ visited → ∀ finished,
      ∃ visited' tree,
        g.search [⟨root, g.edges root⟩] (root :: visited) finished = (visited', finished ++ tree) ∧
        g.IsTree root visited visited' tree) ∧
    (g.finishOrder.Perm (List.range g.size) ∧
      g.finishOrder = (g.tryAll (List.range g.size) []).finished ∧
      ∀ u v, v ∈ g.edges u → ¬g.Reaches v u → [v, u].Sublist g.finishOrder) := by
  refine ⟨?_, ?_, g.finishOrder_eq_tryAll, ?_⟩
  · intro root hroot visited hnew finished
    exact ⟨_, _, g.search_root root visited finished, isTree_visit hroot hnew⟩
  · refine (List.perm_ext_iff_of_nodup g.nodup_finishOrder List.nodup_range).mpr fun u => ?_
    rw [mem_finishOrder, List.mem_range]
  · intro u v huv hback
    obtain ⟨_, h⟩ := g.finishOrder_explores
    have hu := (g.mem_finishOrder u).mpr (lt_size_of_mem_edges huv)
    exact (h.before_of_adj hu ⟨huv, hrange.lt_size huv⟩ hback).resolve_left List.not_mem_nil

/-- Two cycles, of which the second, `4` and `5`, leads to the first. -/
def twoCycles : Graph := ⟨[[1, 2], [3], [3, 1], [1], [0, 5], [4]]⟩

theorem not_reaches_back : ¬twoCycles.Reaches 0 4 := by
  have hlow : ∀ v, twoCycles.Reaches 0 v → v < 4 := by
    intro v hv
    induction hv with
    | refl => decide
    | @tail u v _ hstep ih =>
        have hedges : ∀ u < 4, ∀ v ∈ twoCycles.edges u, v < 4 := by decide
        exact hedges u ih v hstep.1
  exact fun h => absurd (hlow 4 h) (by decide)

/-- From `4`, with `1` visited and finished before, the first cycle is entered
where it can be, and `5` is finished before the root that it leads back to. -/
theorem search_isDepthFirst_twoCycles :
    twoCycles.InRange ∧
      twoCycles.search [⟨4, twoCycles.edges 4⟩] [4, 1] [1] =
        ([5, 3, 2, 0, 4, 1], [1] ++ [3, 2, 0, 5, 4]) ∧
      twoCycles.IsTree 4 [1] [5, 3, 2, 0, 4, 1] [3, 2, 0, 5, 4] ∧
      twoCycles.finishOrder.Perm (List.range 6) ∧
      ¬twoCycles.Reaches 0 4 ∧ [0, 4].Sublist twoCycles.finishOrder := by
  have hrange : twoCycles.InRange := by decide
  obtain ⟨hsearch, hperm, -, hbefore⟩ := search_isDepthFirst hrange
  obtain ⟨visited', tree, hfound, htree⟩ := hsearch 4 (by decide) [1] (by decide) [1]
  have hvalue : twoCycles.search [⟨4, twoCycles.edges 4⟩] [4, 1] [1] =
      ([5, 3, 2, 0, 4, 1], [1] ++ [3, 2, 0, 5, 4]) := by decide +kernel
  obtain ⟨rfl, htail⟩ := Prod.mk.inj (hfound.symm.trans hvalue)
  obtain rfl := List.append_cancel_left htail
  exact ⟨hrange, hvalue, htree, hperm, not_reaches_back,
    hbefore 4 0 (by decide) not_reaches_back⟩

end LeastModel.Graph
